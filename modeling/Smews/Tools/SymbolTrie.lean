import Smews.Tools.GenBlob

/-! The trie of a list of symbols holds these symbols, in order and with their positions, before and
after its compaction.
-/

namespace Smews.Tools

--------------------------------------------------
-- Entries
--------------------------------------------------

/-- A word that ends at a final node, with the reference of the node. -/
abbrev Entry := Symbol × Nat

/-- An entry seen from above a string. -/
def under (string : Symbol) (e : Entry) : Entry := (string ++ e.1, e.2)

/-- The entry of a final node itself. -/
def own (ref : Option Nat) : List Entry := ref.toList.map fun ref => ([], ref)

mutual

/-- The words that are spelled from a node on. -/
def Node.entries : Node → List Entry
  | .mk string ref childs => (own ref ++ Node.entriesOf childs).map (under string)

def Node.entriesOf : List Node → List Entry
  | [] => []
  | node :: rest => node.entries ++ Node.entriesOf rest

end

@[simp] theorem under_nil : under [] = id := rfl

@[simp] theorem under_under (string string' : Symbol) (e : Entry)
    : under string (under string' e) = under (string ++ string') e := by
  simp [under]

@[simp] theorem own_none : own none = [] := rfl

@[simp] theorem own_some (ref : Nat) : own (some ref) = [([], ref)] := rfl

@[simp] theorem entriesOf_nil : Node.entriesOf [] = [] := by rw [Node.entriesOf]

@[simp] theorem entriesOf_cons (node : Node) (rest : List Node)
    : Node.entriesOf (node :: rest) = node.entries ++ Node.entriesOf rest := by
  rw [Node.entriesOf]

@[simp] theorem entries_mk (string : Symbol) (ref : Option Nat) (childs : List Node)
    : (Node.mk string ref childs).entries = (own ref ++ Node.entriesOf childs).map (under string) := by
  rw [Node.entries]

theorem entriesOf_append (nodes more : List Node)
    : Node.entriesOf (nodes ++ more) = Node.entriesOf nodes ++ Node.entriesOf more := by
  induction nodes with
  | nil => simp
  | cons node nodes ih => simp [ih]

--------------------------------------------------
-- The trie
--------------------------------------------------

/-- Brothers that `buildTree` makes: one character each, in increasing order; a node without children is
final.
-/
inductive Node.Built : List Node → Prop
  | nil : Built []
  | cons {c : UInt8} {ref : Option Nat} {childs rest : List Node} (below : Built childs)
    (leaf : childs = [] → ref ≠ none)
    (increasing : ∀ node ∈ rest, ∃ d > c, node.string = [d]) (later : Built rest)
    : Built (.mk [c] ref childs :: rest)

/-- Below every node there is an entry. -/
theorem Node.Built.exists_entry {nodes : List Node} (built : Built nodes)
    : ∀ node ∈ nodes, ∃ e, e ∈ own node.ref ++ entriesOf node.childs := by
  induction built with
  | nil => exact fun _ mem => nomatch mem
  | @cons c ref childs rest below leaf _ _ ih ihLater =>
      intro node mem
      rcases List.mem_cons.mp mem with rfl | mem
      · cases ref with
        | some ref => exact ⟨([], ref), by simp [Node.ref]⟩
        | none =>
            cases childs with
            | nil => exact absurd rfl (leaf rfl)
            | cons child childs =>
                obtain ⟨e, mem⟩ := ih child List.mem_cons_self
                refine ⟨under child.string e, ?_⟩
                obtain ⟨string, ref, below⟩ := child
                simp only [Node.ref, Node.childs, own_none, List.nil_append, entriesOf_cons, entries_mk]
                exact List.mem_append_left _ (List.mem_map_of_mem mem)
      · exact ihLater node mem

theorem insertSymbol_cons {ref : Nat} {c : UInt8} {w : Symbol} {node : Node} {rest : List Node}
    (other : node.string ≠ [c])
    : insertSymbol ref (c :: w) (node :: rest) = node :: insertSymbol ref (c :: w) rest := by
  rw [insertSymbol, insertSymbol]
  simp only [List.any_cons, other, decide_false, Bool.false_or, List.map_cons, if_false,
    List.cons_append]
  split_ifs <;> rfl

theorem insertSymbol_last {ref : Nat} {c : UInt8} {w : Symbol} {old : Option Nat} {childs : List Node}
    : insertSymbol ref (c :: w) [.mk [c] old childs]
      = [.mk [c] ((if w = [] then some ref else none).or old) (insertSymbol ref w childs)] := by
  rw [insertSymbol]
  simp [Node.string, Node.ref, Node.childs]

theorem insertSymbol_nil {ref : Nat} {c : UInt8} {w : Symbol}
    : insertSymbol ref (c :: w) [] = [.mk [c] (if w = [] then some ref else none) (insertSymbol ref w [])] := by
  rw [insertSymbol]
  simp

/-- What the insertion of a word that is greater than those of the brothers does to them. -/
structure Node.Inserted (ref : Nat) (w : Symbol) (nodes : List Node) : Prop where
  built : Built (insertSymbol ref w nodes)
  entries : entriesOf (insertSymbol ref w nodes) = entriesOf nodes ++ [(w, ref)]
  heads : ∀ node ∈ insertSymbol ref w nodes,
    (∃ old ∈ nodes, old.string = node.string) ∨ node.string = w.take 1

/-- The new node of a character: it is final when the word ends with it. -/
theorem inserted_new {ref : Nat} {w : Symbol} (ih : w ≠ [] → Node.Inserted ref w [])
    : Node.Built (insertSymbol ref w []) ∧ (insertSymbol ref w [] = [] → w = [])
      ∧ own (if w = [] then some ref else none) ++ Node.entriesOf (insertSymbol ref w []) = [(w, ref)] := by
  by_cases last : w = []
  · subst last
    rw [insertSymbol]
    exact ⟨.nil, fun _ => rfl, by simp⟩
  · obtain ⟨built, entries, -⟩ := ih last
    refine ⟨built, fun empty => ?_, ?_⟩
    · rw [empty] at entries
      simp at entries
    · rw [if_neg last, entries]
      simp

/-- The symbols come in order, so the last brother is the one that a word shares its first character
with, if any. By induction on the word, and on the brothers.
-/
theorem Node.Built.insert {ref : Nat} {w : Symbol} (nonempty : w ≠ []) {nodes : List Node}
    (built : Built nodes) (greater : ∀ e ∈ entriesOf nodes, e.1 < w)
    : Inserted ref w nodes := by
  induction w generalizing nodes with
  | nil => exact absurd rfl nonempty
  | cons c w ih =>
      clear nonempty
      induction built with
      | nil =>
          obtain ⟨below, leaf, entries⟩ := @inserted_new ref w fun last => ih last .nil (by simp)
          have eq := @insertSymbol_nil ref c w
          refine ⟨?_, ?_, ?_⟩
          · rw [eq]
            refine .cons below (fun empty => ?_) (fun _ mem => nomatch mem) .nil
            rw [if_pos (leaf empty)]
            exact Option.some_ne_none _
          · rw [eq, entriesOf_cons, entries_mk, entries]
            simp [under]
          · rw [eq]
            simp [Node.string]
      | @cons d old childs rest below leaf increasing later _ ihLater =>
          have whole : Built (.mk [d] old childs :: rest) := .cons below leaf increasing later
          have here (e : Entry) (mem : e ∈ own old ++ entriesOf childs) : d < c ∨ d = c ∧ e.1 < w := by
            have less := greater (under [d] e) (by
              rw [entriesOf_cons, entries_mk]
              exact List.mem_append_left _ (List.mem_map_of_mem mem))
            exact List.cons_lt_cons_iff.mp less
          have there (e : Entry) (mem : e ∈ entriesOf rest) : e.1 < c :: w := by
            refine greater e ?_
            rw [entriesOf_cons]
            exact List.mem_append_right _ mem
          obtain ⟨e, inner⟩ := whole.exists_entry _ List.mem_cons_self
          by_cases same : d = c
          · -- the last brother
            subst same
            have last : rest = [] := by
              cases rest with
              | nil => rfl
              | cons node rest =>
                  obtain ⟨d', larger, string⟩ := increasing node List.mem_cons_self
                  obtain ⟨e', inner'⟩ := later.exists_entry _ List.mem_cons_self
                  obtain ⟨_, ref', childs'⟩ := node
                  have less := there (under [d'] e') (by
                    rw [entriesOf_cons, entries_mk]
                    rw [Node.string] at string
                    rw [string]
                    exact List.mem_append_left _ (List.mem_map_of_mem inner'))
                  rcases List.cons_lt_cons_iff.mp less with less | ⟨same, -⟩
                  · exact absurd less (UInt8.lt_asymm larger)
                  · exact absurd (same ▸ larger) (UInt8.lt_irrefl _)
            subst last
            have below_less (e : Entry) (mem : e ∈ own old ++ entriesOf childs) : e.1 < w :=
              ((here e mem).resolve_left (UInt8.lt_irrefl _)).2
            have more : w ≠ [] := by
              rintro rfl
              exact List.not_lt_nil _ (below_less e inner)
            obtain ⟨built, entries, -⟩ := ih more below fun e mem => below_less e (List.mem_append_right _ mem)
            have eq := @insertSymbol_last ref d w old childs
            rw [if_neg more, Option.none_or] at eq
            refine ⟨?_, ?_, ?_⟩
            · rw [eq]
              refine .cons built (fun empty => ?_) (fun _ mem => nomatch mem) .nil
              rw [empty] at entries
              simp at entries
            · rw [eq, entriesOf_cons, entries_mk, entries]
              simp [under]
            · rw [eq]
              simp [Node.string]
          · have less : d < c := (here e inner).resolve_right fun eq => same eq.1
            obtain ⟨built, entries, heads⟩ := ihLater there
            have eq := @insertSymbol_cons ref c w (.mk [d] old childs) rest
              (by simpa [Node.string] using same)
            refine ⟨?_, ?_, ?_⟩
            · rw [eq]
              refine .cons below leaf (fun node mem => ?_) built
              rcases heads node mem with ⟨before, member, string⟩ | string
              · rw [← string]
                exact increasing before member
              · exact ⟨c, less, string⟩
            · rw [eq, entriesOf_cons, entriesOf_cons, entries, List.append_assoc]
            · rw [eq]
              intro node mem
              rcases List.mem_cons.mp mem with rfl | mem
              · exact .inl ⟨_, List.mem_cons_self, rfl⟩
              · rcases heads node mem with ⟨before, member, string⟩ | string
                · exact .inl ⟨before, List.mem_cons_of_mem _ member, string⟩
                · exact .inr string

/-- The fold of `buildTree`, by induction on the symbols that are left. -/
theorem Node.Built.insertAll {symbols : List Entry} {nodes : List Node} (built : Built nodes)
    (nonempty : ∀ e ∈ symbols, e.1 ≠ [])
    (sorted : (entriesOf nodes ++ symbols).Pairwise fun e e' => e.1 < e'.1)
    : Built (symbols.foldl (fun childs symbol => insertSymbol symbol.2 symbol.1 childs) nodes)
      ∧ entriesOf (symbols.foldl (fun childs symbol => insertSymbol symbol.2 symbol.1 childs) nodes)
        = entriesOf nodes ++ symbols := by
  induction symbols generalizing nodes with
  | nil => exact ⟨built, (List.append_nil _).symm⟩
  | cons symbol symbols ih =>
      obtain ⟨w, ref⟩ := symbol
      have greater (e : Entry) (mem : e ∈ entriesOf nodes) : e.1 < w :=
        (List.pairwise_append.mp sorted).2.2 e mem _ List.mem_cons_self
      obtain ⟨built, entries, -⟩ : Inserted ref w nodes :=
        built.insert (nonempty _ List.mem_cons_self) greater
      have rest := ih built (fun e mem => nonempty e (List.mem_cons_of_mem _ mem)) (by
        rw [entries, List.append_assoc]
        exact sorted)
      rw [List.foldl_cons]
      refine ⟨rest.1, rest.2.trans ?_⟩
      rw [entries, List.append_assoc]
      rfl

/-- What `genBlobTree` accepts: it fails on an empty symbol and on a repeated one. -/
structure Accepted (symbols : List Symbol) : Prop where
  nonempty : ∀ s ∈ symbols, s ≠ []
  distinct : symbols.Nodup

theorem sortedSymbols_perm (symbols : List Symbol) : (sortedSymbols symbols).Perm symbols.zipIdx :=
  List.perm_insertionSort _ _

theorem sortedSymbols_sorted {symbols : List Symbol} (accepted : Accepted symbols)
    : (sortedSymbols symbols).Pairwise fun e e' => e.1 < e'.1 := by
  have total : Std.Total fun a b : Entry => a.1 ≤ b.1 := ⟨fun a b => List.le_total a.1 b.1⟩
  have trans : IsTrans Entry fun a b => a.1 ≤ b.1 := ⟨fun a b c ab bc => List.le_trans ab bc⟩
  have sorted := List.pairwise_insertionSort (fun a b : Entry => a.1 ≤ b.1) symbols.zipIdx
  have distinct : ((sortedSymbols symbols).map Prod.fst).Nodup := by
    rw [((sortedSymbols_perm symbols).map Prod.fst).nodup_iff, List.zipIdx_map_fst]
    exact accepted.distinct
  rw [List.Nodup, List.pairwise_map] at distinct
  exact (sorted.and distinct).imp fun ⟨le, ne⟩ => (List.le_iff_lt_or_eq.mp le).resolve_right ne

theorem sortedSymbols_nonempty {symbols : List Symbol} (accepted : Accepted symbols)
    : ∀ e ∈ sortedSymbols symbols, e.1 ≠ [] := by
  intro e mem
  rw [(sortedSymbols_perm symbols).mem_iff] at mem
  exact accepted.nonempty _ (List.fst_mem_of_mem_zipIdx mem)

/-- The trie of a list of symbols. -/
theorem buildTree_built {symbols : List Symbol} (accepted : Accepted symbols)
    : Node.Built (buildTree (sortedSymbols symbols))
      ∧ Node.entriesOf (buildTree (sortedSymbols symbols)) = sortedSymbols symbols := by
  have built := Node.Built.nil.insertAll (sortedSymbols_nonempty accepted) (by
    rw [entriesOf_nil]
    exact sortedSymbols_sorted accepted)
  rw [entriesOf_nil] at built
  exact built

--------------------------------------------------
-- Compaction
--------------------------------------------------

/-- Brothers of the compacted trie: no string is empty, a node without children is final, and several
brothers have one character each, in increasing order.
-/
inductive Node.Level : List Node → Prop
  | intro {nodes : List Node} (nonempty : ∀ node ∈ nodes, node.string ≠ [])
    (leaf : ∀ node ∈ nodes, node.childs = [] → node.ref ≠ none)
    (below : ∀ node ∈ nodes, Level node.childs)
    (increasing : nodes.Pairwise fun a b => ∃ c d, a.string = [c] ∧ b.string = [d] ∧ c < d)
    : Level nodes

theorem Node.Level.cons {node : Node} {rest : List Node} (nonempty : node.string ≠ [])
    (leaf : node.childs = [] → node.ref ≠ none) (below : Level node.childs)
    (increasing : ∀ b ∈ rest, ∃ c d, node.string = [c] ∧ b.string = [d] ∧ c < d) (later : Level rest)
    : Level (node :: rest) := by
  obtain ⟨nonempty', leaf', below', increasing'⟩ := later
  exact ⟨List.forall_mem_cons.mpr ⟨nonempty, nonempty'⟩, List.forall_mem_cons.mpr ⟨leaf, leaf'⟩,
    List.forall_mem_cons.mpr ⟨below, below'⟩, List.pairwise_cons.mpr ⟨increasing, increasing'⟩⟩

theorem Node.Level.nil : Node.Level [] := by
  constructor <;> simp

theorem Node.Level.sublist {nodes nodes' : List Node} (level : Level nodes)
    (sublist : nodes'.Sublist nodes)
    : Level nodes' := by
  obtain ⟨nonempty, leaf, below, increasing⟩ := level
  exact ⟨fun n mem => nonempty n (sublist.subset mem), fun n mem => leaf n (sublist.subset mem),
    fun n mem => below n (sublist.subset mem), increasing.sublist sublist⟩

/-- What the compaction keeps. Brothers keep their strings. -/
structure Node.Compacts (n : Nat) (nodes : List Node) : Prop where
  level : Level (compactNodes n nodes)
  entries : entriesOf (compactNodes n nodes) = entriesOf nodes
  empty : compactNodes n nodes = [] ↔ nodes = []
  strings : n ≠ 0 → (compactNodes n nodes).map Node.string = nodes.map Node.string

/-- A node that absorbs its only child, or stays. -/
theorem compactNode_cases (n : Nat) (string : Symbol) (ref : Option Nat) (childs : List Node)
    : (∃ string' ref' childs', n = 0 ∧ ref = none
        ∧ compactNodes (childs.length - 1) childs = [.mk string' ref' childs']
        ∧ compactNode n (.mk string ref childs) = .mk (string ++ string') ref' childs')
      ∨ compactNode n (.mk string ref childs) = .mk string ref (compactNodes (childs.length - 1) childs) := by
  rw [compactNode.eq_def]
  dsimp only
  split
  case h_1 string' ref' childs' only => exact .inl ⟨string', ref', childs', rfl, rfl, only, rfl⟩
  case h_2 => exact .inr rfl

/-- By induction on the trie. Only a node without brothers changes its string. -/
theorem Node.Built.compacts {nodes : List Node} (built : Built nodes) {n : Nat}
    (brothers : n ≠ 0 ∨ nodes.length ≤ 1)
    : Compacts n nodes := by
  induction built generalizing n with
  | nil =>
      have none : compactNodes n [] = [] := by rw [compactNodes]
      exact ⟨by rw [none]; exact .nil, by rw [none], by simp [none], by simp [none]⟩
  | @cons c ref childs rest below leaf increasing later ih ihLater =>
      obtain ⟨level, entries, empty, -⟩ := ih (n := childs.length - 1) (by omega)
      have split : compactNodes n (.mk [c] ref childs :: rest)
          = compactNode n (.mk [c] ref childs) :: compactNodes n rest := by
        rw [compactNodes]
      have same (node : Node) (mem : node ∈ rest) : n ≠ 0 := by
        rcases brothers with brothers | brothers
        · exact brothers
        · rw [List.length_cons] at brothers
          have := List.length_pos_of_mem mem
          omega
      obtain ⟨levelRest, entriesRest, emptyRest, stringsRest⟩ := ihLater (n := n) (by
        cases rest with
        | nil => exact .inr (by simp)
        | cons node rest => exact .inl (same node List.mem_cons_self))
      rcases compactNode_cases n [c] ref childs with ⟨string', ref', childs', zero, final, only, eq⟩ | eq
      · -- without brothers
        have last : rest = [] := List.eq_nil_iff_forall_not_mem.mpr fun node mem => same node mem zero
        subst last zero final
        have none : compactNodes 0 [] = [] := by rw [compactNodes]
        rw [only] at level entries
        rw [eq, none] at split
        obtain ⟨nonempty, leaf', below', -⟩ := level
        refine ⟨?_, ?_, by simp [split], fun nonzero => absurd rfl nonzero⟩
        · rw [split]
          refine .cons (by simp [Node.string]) ?_ ?_ (fun _ mem => nomatch mem) .nil
          · exact leaf' (.mk string' ref' childs') List.mem_cons_self
          · exact below' (.mk string' ref' childs') List.mem_cons_self
        · rw [split]
          simp only [entriesOf_cons, entries_mk, entriesOf_nil, List.append_nil] at entries ⊢
          rw [← entries, own_none, List.nil_append, List.map_map]
          congr 1
      · rw [eq] at split
        refine ⟨?_, ?_, by simp [split], fun nonzero => ?_⟩
        · rw [split]
          refine .cons (by simp [Node.string]) ?_ level ?_ levelRest
          · exact fun empty' => leaf (empty.mp empty')
          · intro b mem
            have string : b.string ∈ rest.map Node.string := by
              rw [← stringsRest ?_]
              · exact List.mem_map_of_mem mem
              · rcases brothers with brothers | brothers
                · exact brothers
                · have alone : rest = [] := by
                    rw [List.length_cons] at brothers
                    exact List.length_eq_zero_iff.mp (by omega)
                  rw [emptyRest.mpr alone] at mem
                  cases mem
            obtain ⟨old, member, string⟩ := List.mem_map.mp string
            obtain ⟨d, larger, is_d⟩ := increasing old member
            exact ⟨c, d, rfl, string ▸ is_d, larger⟩
        · rw [split]
          simp only [entriesOf_cons, entries_mk, entries, entriesRest]
        · rw [split, List.map_cons, List.map_cons, stringsRest nonzero]
          rfl

end Smews.Tools
