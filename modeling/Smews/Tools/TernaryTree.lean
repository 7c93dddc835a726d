import Smews.Tools.SymbolTrie

/-! The ternary tree of a list of symbols is a search tree that holds these symbols.
-/

namespace Smews.Tools

--------------------------------------------------
-- Entries
--------------------------------------------------

/-- The words that are spelled from a node on. The subtrees under `<` and `>` take the place of the last
character of the node.
-/
def Ternary.entries : Ternary → List Entry
  | .absent => []
  | .node string ref inf eq sup =>
      (inf.entries ++ (own ref ++ eq.entries).map (under (string.drop (string.length - 1)))
        ++ sup.entries).map (under string.dropLast)

@[simp] theorem entries_absent : Ternary.absent.entries = [] := rfl

theorem entries_node (s : Symbol) (c : UInt8) (ref : Option Nat) (inf eq sup : Ternary)
    : (Ternary.node (s ++ [c]) ref inf eq sup).entries
      = (inf.entries ++ (own ref ++ eq.entries).map (under [c]) ++ sup.entries).map (under s) := by
  have last : (s ++ [c]).drop ((s ++ [c]).length - 1) = [c] := by
    rw [List.length_append, List.length_singleton, Nat.add_sub_cancel]
    exact List.drop_left' rfl
  rw [Ternary.entries, List.dropLast_concat, last]

/-- A node without subtrees under `<` and `>`. -/
theorem entries_alone (string : Symbol) (ref : Option Nat) (eq : Ternary)
    : (Ternary.node string ref .absent eq .absent).entries
      = (own ref ++ eq.entries).map (under string) := by
  rcases List.eq_nil_or_concat' string with rfl | ⟨s, c, rfl⟩
  · simp [Ternary.entries]
  · rw [entries_node, entries_absent, List.nil_append, List.append_nil, List.map_map]
    congr 1
    funext e
    exact under_under s [c] e

/-- A search tree: no string is empty, a node that is not final goes on, there is something under `>`
only with something under `<`, and the words there begin with smaller and greater characters.
-/
inductive Ternary.Shaped : Ternary → Prop
  | absent : Shaped .absent
  | node {s : Symbol} {c : UInt8} {ref : Option Nat} {inf eq sup : Ternary} (inf_shaped : Shaped inf)
    (eq_shaped : Shaped eq) (sup_shaped : Shaped sup) (final : ref = none → eq ≠ .absent)
    (left : sup ≠ .absent → inf ≠ .absent)
    (below : ∀ e ∈ inf.entries, ∃ d < c, ∃ w, e.1 = d :: w)
    (above : ∀ e ∈ sup.entries, ∃ d > c, ∃ w, e.1 = d :: w)
    : Shaped (.node (s ++ [c]) ref inf eq sup)

theorem Ternary.Shaped.eq_shaped {string : Symbol} {ref : Option Nat} {inf eq sup : Ternary}
    (shaped : (Ternary.node string ref inf eq sup).Shaped)
    : eq.Shaped := by
  cases shaped
  assumption

/-- By induction on the tree. -/
theorem Ternary.Shaped.entry_nonempty {t : Ternary} (shaped : t.Shaped) : ∀ e ∈ t.entries, e.1 ≠ [] := by
  induction shaped with
  | absent => exact fun _ mem => nomatch mem
  | @node s c ref inf eq sup _ _ _ _ _ _ _ inf_ih _ sup_ih =>
      intro e mem
      rw [entries_node, List.mem_map] at mem
      obtain ⟨e', mem, rfl⟩ := mem
      rw [List.mem_append, List.mem_append] at mem
      refine List.append_ne_nil_of_right_ne_nil s ?_
      rcases mem with (mem | mem) | mem
      · exact inf_ih e' mem
      · obtain ⟨e'', -, rfl⟩ := List.mem_map.mp mem
        exact List.cons_ne_nil _ _
      · exact sup_ih e' mem

/-- There is a word below every node, by induction on the tree. -/
theorem Ternary.Shaped.exists_entry {t : Ternary} (shaped : t.Shaped) (present : t ≠ .absent) : ∃ e, e ∈ t.entries := by
  induction shaped with
  | absent => exact absurd rfl present
  | @node s c ref inf eq sup _ _ _ final _ _ _ _ eq_ih _ =>
      have here : ∃ e, e ∈ own ref ++ eq.entries := by
        cases ref with
        | some r => exact ⟨([], r), List.mem_append_left _ (by simp [own])⟩
        | none =>
            obtain ⟨e, mem⟩ := eq_ih (final rfl)
            exact ⟨e, List.mem_append_right _ mem⟩
      obtain ⟨e, mem⟩ := here
      refine ⟨under s (under [c] e), ?_⟩
      rw [entries_node]
      exact List.mem_map_of_mem (List.mem_append_left _ (List.mem_append_right _ (List.mem_map_of_mem mem)))

--------------------------------------------------
-- Balancing
--------------------------------------------------

theorem sizes_append (nodes more : List Node)
    : Node.sizes (nodes ++ more) = Node.sizes nodes + Node.sizes more := by
  induction nodes with
  | nil => simp [Node.sizes]
  | cons node nodes ih => simp [Node.sizes, ih, Nat.add_assoc]

/-- The words below brothers begin with their strings. -/
theorem entriesOf_head {nodes : List Node} {e : Entry} (mem : e ∈ Node.entriesOf nodes)
    : ∃ node ∈ nodes, ∃ w, e.1 = node.string ++ w := by
  induction nodes with
  | nil => simp at mem
  | cons node rest ih =>
      rw [entriesOf_cons, List.mem_append] at mem
      rcases mem with mem | mem
      · obtain ⟨string, ref, childs⟩ := node
        rw [entries_mk, List.mem_map] at mem
        obtain ⟨e', -, rfl⟩ := mem
        exact ⟨_, List.mem_cons_self, e'.1, rfl⟩
      · obtain ⟨node, member, same⟩ := ih mem
        exact ⟨node, List.mem_cons_of_mem _ member, same⟩

theorem append_eq_one {s : Symbol} {c d : UInt8} (eq : s ++ [c] = [d]) : s = [] ∧ c = d := by
  rcases List.append_eq_singleton_iff.mp eq with ⟨empty, same⟩ | ⟨-, empty⟩
  · exact ⟨empty, (List.cons.inj same).1⟩
  · cases empty

/-- What balancing gives. -/
structure Balanced (nodes : List Node) (t : Ternary) : Prop where
  shaped : t.Shaped
  entries : t.entries = Node.entriesOf nodes
  absent : t = .absent ↔ nodes = []

/-- By induction on the recursion: the central node splits its brothers. -/
theorem balance_balanced {fuel : Nat} {nodes : List Node} (level : Node.Level nodes)
    (enough : Node.sizes nodes < fuel)
    : Balanced nodes (balance fuel nodes) := by
  induction fuel generalizing nodes with
  | zero => exact absurd enough (Nat.not_lt_zero _)
  | succ fuel ih =>
      rw [balance]
      generalize half : nodes.length / 2 = k
      cases central : nodes[k]? with
      | none =>
          have empty : nodes = [] := by
            rw [List.getElem?_eq_none_iff] at central
            exact List.length_eq_zero_iff.mp (by omega)
          exact ⟨.absent, by rw [empty]; simp, by simp [empty]⟩
      | some node =>
          obtain ⟨string, ref, below⟩ := node
          obtain ⟨lt, eq⟩ := List.getElem?_eq_some_iff.mp central
          have split : nodes = nodes.take k ++ .mk string ref below :: nodes.drop (k + 1) := by
            rw [← eq, List.getElem_cons_drop, List.take_append_drop]
          have sizes : Node.sizes (nodes.take k) + (1 + Node.sizes below + Node.sizes (nodes.drop (k + 1)))
              = Node.sizes nodes := by
            conv_rhs => rw [split, sizes_append, Node.sizes, Node.size]
          have inf := ih (level.sublist (List.take_sublist k nodes)) (by omega)
          have sup := ih (level.sublist (List.drop_sublist (k + 1) nodes)) (by omega)
          obtain ⟨nonempty, leaf, levels, increasing⟩ := level
          have mem : Node.mk string ref below ∈ nodes := List.mem_of_getElem? central
          have under_eq : Balanced below (balance fuel below) := ih (levels _ mem) (by omega)
          have order := List.pairwise_append.mp (split ▸ increasing)
          obtain ⟨s, c, rfl⟩ := (List.eq_nil_or_concat' string).resolve_left (nonempty _ mem)
          -- brothers have one character each
          have before (node : Node) (member : node ∈ nodes.take k)
              : s = [] ∧ ∃ d < c, node.string = [d] := by
            obtain ⟨d, c', node_string, string, less⟩ := order.2.2 node member _ List.mem_cons_self
            obtain ⟨empty, rfl⟩ := append_eq_one string
            exact ⟨empty, d, less, node_string⟩
          have after (node : Node) (member : node ∈ nodes.drop (k + 1))
              : s = [] ∧ ∃ d > c, node.string = [d] := by
            obtain ⟨c', d, string, node_string, less⟩ := (List.pairwise_cons.mp order.2.1).1 node member
            obtain ⟨empty, rfl⟩ := append_eq_one string
            exact ⟨empty, d, less, node_string⟩
          refine ⟨.node inf.shaped under_eq.shaped sup.shaped ?_ ?_ ?_ ?_, ?_, ?_⟩
          · exact fun final absent => leaf _ mem (under_eq.absent.mp absent) final
          · intro present
            rw [ne_eq, sup.absent, List.drop_eq_nil_iff] at present
            rw [ne_eq, inf.absent, List.take_eq_nil_iff]
            rintro (zero | empty)
            · omega
            · rw [empty] at present
              simp at present
          · intro e here
            rw [inf.entries] at here
            obtain ⟨node, member, w, word⟩ := entriesOf_head here
            obtain ⟨-, d, less, string⟩ := before node member
            exact ⟨d, less, w, by rw [word, string]; rfl⟩
          · intro e here
            rw [sup.entries] at here
            obtain ⟨node, member, w, word⟩ := entriesOf_head here
            obtain ⟨-, d, less, string⟩ := after node member
            exact ⟨d, less, w, by rw [word, string]; rfl⟩
          · rw [entries_node, inf.entries, under_eq.entries, sup.entries]
            conv_rhs => rw [split, entriesOf_append, entriesOf_cons, entries_mk]
            by_cases alone : nodes.take k = [] ∧ nodes.drop (k + 1) = []
            · rw [alone.1, alone.2]
              simp only [entriesOf_nil, List.nil_append, List.append_nil, List.map_map]
              congr 1
              funext e
              exact under_under s [c] e
            · have empty : s = [] := by
                by_contra nonempty
                refine alone ⟨?_, ?_⟩ <;> refine List.eq_nil_iff_forall_not_mem.mpr fun node member => ?_
                · exact nonempty (before node member).1
                · exact nonempty (after node member).1
              subst empty
              simp
          · exact iff_of_false Ternary.noConfusion fun empty => by simp [empty] at mem

--------------------------------------------------
-- Compaction
--------------------------------------------------

/-- A node that absorbs the subtree under `=`, or stays. -/
theorem compactTernaryTree_cases (string : Symbol) (ref : Option Nat) (inf eq sup : Ternary)
    : (∃ string' ref' inf' eq' sup', ref = none ∧ compactTernaryTree inf = .absent
        ∧ compactTernaryTree eq = .node string' ref' inf' eq' sup' ∧ compactTernaryTree sup = .absent
        ∧ compactTernaryTree (.node string ref inf eq sup) = .node (string ++ string') ref' inf' eq' sup')
      ∨ compactTernaryTree (.node string ref inf eq sup)
        = .node string ref (compactTernaryTree inf) (compactTernaryTree eq) (compactTernaryTree sup)
        ∧ (ref = none → compactTernaryTree inf = .absent → compactTernaryTree sup = .absent →
          compactTernaryTree eq = .absent) := by
  rw [compactTernaryTree.eq_def (.node string ref inf eq sup)]
  dsimp only
  split
  case h_1 string' ref' inf' eq' sup' no_inf is_eq no_sup =>
    exact .inl ⟨string', ref', inf', eq', sup', rfl, no_inf, is_eq, no_sup, rfl⟩
  case h_2 other =>
    refine .inr ⟨rfl, fun final no_inf no_sup => ?_⟩
    cases is_eq : compactTernaryTree eq with
    | absent => rfl
    | node string' ref' inf' eq' sup' => exact (other _ _ _ _ _ final no_inf is_eq no_sup).elim

/-- What the compaction keeps. -/
structure Compacted (t t' : Ternary) : Prop where
  shaped : t'.Shaped
  entries : t'.entries = t.entries
  absent : t' = .absent ↔ t = .absent

theorem absorbed_entries {string string' : Symbol} {ref : Option Nat} {inf eq sup : Ternary}
    (shaped : (Ternary.node string' ref inf eq sup).Shaped)
    : (Ternary.node (string ++ string') ref inf eq sup).entries
      = (Ternary.node string' ref inf eq sup).entries.map (under string) := by
  cases shaped with
  | @node s c _ _ _ _ _ _ _ _ _ _ _ =>
      rw [← List.append_assoc, entries_node, entries_node, List.map_map]
      congr 1
      funext e
      exact (under_under string s e).symm

theorem absorbed_shaped {string string' : Symbol} {ref : Option Nat} {inf eq sup : Ternary}
    (shaped : (Ternary.node string' ref inf eq sup).Shaped)
    : (Ternary.node (string ++ string') ref inf eq sup).Shaped := by
  cases shaped with
  | node inf_shaped eq_shaped sup_shaped final left below above =>
      rw [← List.append_assoc]
      exact .node inf_shaped eq_shaped sup_shaped final left below above

/-- By induction on the tree. -/
theorem Ternary.Shaped.compacted {t : Ternary} (shaped : t.Shaped)
    : Compacted t (compactTernaryTree t) := by
  induction shaped with
  | absent =>
      have absent : compactTernaryTree .absent = .absent := by rw [compactTernaryTree]
      exact ⟨by rw [absent]; exact .absent, by rw [absent], by rw [absent]⟩
  | @node s c ref inf eq sup _ _ _ final left below above inf_ih eq_ih sup_ih =>
      rcases compactTernaryTree_cases (s ++ [c]) ref inf eq sup
        with ⟨string', ref', inf', eq', sup', none, no_inf, is_eq, no_sup, same⟩ | ⟨same, -⟩
      · rw [same]
        have child := eq_ih.shaped
        rw [is_eq] at child
        refine ⟨absorbed_shaped child, ?_, iff_of_false Ternary.noConfusion Ternary.noConfusion⟩
        rw [absorbed_entries child, ← is_eq, eq_ih.entries, inf_ih.absent.mp no_inf,
          sup_ih.absent.mp no_sup, entries_alone, none]
        rfl
      · rw [same]
        refine ⟨.node inf_ih.shaped eq_ih.shaped sup_ih.shaped ?_ ?_ ?_ ?_, ?_,
          iff_of_false Ternary.noConfusion Ternary.noConfusion⟩
        · exact fun none absent => final none (eq_ih.absent.mp absent)
        · exact fun present absent => left (fun none => present (sup_ih.absent.mpr none))
            (inf_ih.absent.mp absent)
        · rwa [inf_ih.entries]
        · rwa [sup_ih.entries]
        · rw [entries_node, entries_node, inf_ih.entries, eq_ih.entries, sup_ih.entries]

--------------------------------------------------
-- The tree of a list of symbols
--------------------------------------------------

/-- A node without brothers becomes a search tree. -/
theorem toTernaryTree_compacted {string : Symbol} {ref : Option Nat} {childs : List Node}
    (level : Node.Level [.mk string ref childs])
    : (compactTernaryTree (toTernaryTree (.mk string ref childs))).Shaped
      ∧ (compactTernaryTree (toTernaryTree (.mk string ref childs))).entries
        = Node.entriesOf [.mk string ref childs]
      ∧ compactTernaryTree (toTernaryTree (.mk string ref childs)) ≠ .absent := by
  obtain ⟨nonempty, leaf, below, -⟩ := level
  have below : Node.Level childs := below _ List.mem_cons_self
  have balanced := balance_balanced below (Nat.lt_succ_self (Node.sizes childs))
  obtain ⟨s, c, rfl⟩ :=
    (List.eq_nil_or_concat' string).resolve_left (nonempty (.mk string ref childs) List.mem_cons_self)
  have shaped : (toTernaryTree (.mk (s ++ [c]) ref childs)).Shaped := by
    rw [toTernaryTree]
    refine .node .absent balanced.shaped .absent (fun final absent => ?_) (fun present => absurd rfl present)
      (fun _ mem => nomatch mem) (fun _ mem => nomatch mem)
    exact leaf (.mk (s ++ [c]) ref childs) List.mem_cons_self (balanced.absent.mp absent) final
  obtain ⟨shaped', entries, absent⟩ := shaped.compacted
  refine ⟨shaped', ?_, fun none => ?_⟩
  · rw [entries, toTernaryTree, entries_alone, balanced.entries]
    simp
  · rw [absent, toTernaryTree] at none
    cases none

/-- The generated tree is a search tree for the symbols. -/
theorem genTree_compacted {symbols : List Symbol} (accepted : Accepted symbols) (some : symbols ≠ [])
    : (genTree symbols).Shaped ∧ (genTree symbols).entries = sortedSymbols symbols
      ∧ genTree symbols ≠ .absent := by
  obtain ⟨built, entries⟩ := buildTree_built accepted
  obtain ⟨level, same, empty, -⟩ := built.compacts (n := (buildTree (sortedSymbols symbols)).length - 1)
    (by omega)
  rw [entries] at same
  rw [genTree]
  rcases compactNode_cases 0 [] none (buildTree (sortedSymbols symbols))
    with ⟨string, ref, childs, -, -, only, eq⟩ | eq
  · -- all symbols begin with the same character
    rw [only] at level same
    rw [eq, List.nil_append, ← same]
    exact toTernaryTree_compacted level
  · generalize compactNodes _ _ = childs at eq level same empty
    have balanced := balance_balanced level (Nat.lt_succ_self (Node.sizes childs))
    obtain ⟨shaped, entries, absent⟩ := balanced.shaped.compacted
    rw [eq, toTernaryTree]
    rcases compactTernaryTree_cases [] none .absent (balance (Node.sizes childs + 1) childs) .absent
      with ⟨string', ref', inf', eq', sup', -, -, is_eq, -, root⟩ | ⟨-, none⟩
    · rw [root, List.nil_append, ← is_eq]
      refine ⟨shaped, by rw [entries, balanced.entries, same], fun none => ?_⟩
      rw [is_eq] at none
      cases none
    · -- there are symbols
      have gone := none rfl (by rw [compactTernaryTree]) (by rw [compactTernaryTree])
      rw [absent, balanced.absent] at gone
      rw [gone, entriesOf_nil] at same
      have zero := (sortedSymbols_perm symbols).length_eq
      rw [← same, List.length_zipIdx] at zero
      exact absurd (List.length_eq_zero_iff.mp zero.symm) some

/-- A symbol is an entry with its position. -/
theorem mem_sortedSymbols {symbols : List Symbol} {s : Symbol} {i : Nat}
    : (s, i) ∈ sortedSymbols symbols ↔ symbols[i]? = some s := by
  rw [(sortedSymbols_perm symbols).mem_iff, List.mem_zipIdx_iff_getElem?]

end Smews.Tools
