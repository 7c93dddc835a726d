import Mathlib.Data.List.Find
import Smews.Core.Connections
import Smews.Library.CircularList
import Smews.Library.Runs

/-! The ring of connections with its links, as `connections.c` edits them, and the loop `FOR_EACH_CONN`.
`smews_receive` works on the copy `tmp_connection`, which it writes back with the links it was copied with.
-/

namespace Smews.Core

open CircularList Runs

--------------------------------------------------
-- Pointers
--------------------------------------------------

/-- `struct connection`, with its links. -/
structure Cell where
  protocol : Protocol
  next : Option Addr
  prev : Option Addr

/-- The connections that `mem_alloc` gave, `all_connections`, and for `smews_receive` the global `tmp_connection` and
the local `connection`.
-/
structure ConnectionRing where
  live : List Addr
  cells : Addr → Cell
  allConnections : Option Addr
  tmpConnection : Cell
  connection : Option Addr

namespace ConnectionRing

/-- A read through a pointer, undefined for `NULL` and for a connection that was freed. -/
def read (s : ConnectionRing) (a : Option Addr) : Option Cell :=
  a.bind fun a => if a ∈ s.live then some (s.cells a) else none

/-- A change of a connection. -/
def put (s : ConnectionRing) (a : Addr) (f : Cell → Cell) : ConnectionRing :=
  { s with cells := Function.update s.cells a (f (s.cells a)) }

/-- A store through a pointer. -/
def store (s : ConnectionRing) (a : Option Addr) (f : Cell → Cell) : Option ConnectionRing :=
  a.bind fun a => if a ∈ s.live then some (s.put a f) else none

/-- `add_connection`, with the block that `mem_alloc` gives. -/
def addConnection (source : Cell) (block : Option Addr) (s : ConnectionRing)
    : Option (Option Addr × ConnectionRing) :=
  match block with
  | none => some (none, s)
  | some a => do
      let connection := some a
      let s := { s with live := a :: s.live, cells := Function.update s.cells a source }
      if s.allConnections = none then do
        let s ← s.store connection ({ · with next := connection })
        let s ← s.store connection ({ · with prev := connection })
        some (connection, { s with allConnections := connection })
      else do
        let last := (← s.read s.allConnections).prev
        let s ← s.store connection ({ · with prev := last })
        let s ← s.store (← s.read connection).prev ({ · with next := connection })
        let s ← s.store connection ({ · with next := s.allConnections })
        let s ← s.store s.allConnections ({ · with prev := connection })
        some (connection, s)

/-- The links in `free_connection`, and the release of the block. -/
def freeConnection (a : Addr) (s : ConnectionRing) : Option ConnectionRing := do
  let connection := some a
  let next := (← s.read connection).next
  let s ← s.store (← s.read connection).prev ({ · with next })
  let prev := (← s.read connection).prev
  let s ← s.store (← s.read connection).next ({ · with prev })
  let c ← s.read connection
  let s := { s with allConnections := if connection = c.next then none else c.next }
  some { s with live := s.live.filter (· ≠ a) }

/-- The rotation in `smews_send`, once `active_connection` is chosen. -/
def rotate (active : Addr) (s : ConnectionRing) : Option ConnectionRing := do
  some { s with allConnections := (← s.read (some active)).next }

--------------------------------------------------
-- `FOR_EACH_CONN`
--------------------------------------------------

/-- How the code of a loop ends: at its last statement, with `continue` or with `break`. -/
inductive Jump
  | fall
  | continues
  | breaks
deriving DecidableEq

/-- `NEXT_CONN`. -/
def nextConn (s : ConnectionRing) (item : Option Addr) : Option (Option Addr) := do
  some (← s.read item).next

/-- The code of a loop: it may move the item. -/
abbrev LoopCode := ConnectionRing → Addr → Option (Option Addr × Jump)

/-- The `do`-`while` loop of `FOR_EACH_CONN` from an item on, in at most so many turns: the connections it visits, and
the item at the `break`. A `continue` goes to the test.
-/
def doWhile (s : ConnectionRing) (code : LoopCode) : Nat → Option Addr → Option (List Addr × Option Addr)
  | 0, _ => none
  | _ + 1, none => none
  | turns + 1, some item => do
      let test (item' : Option Addr) : Option (List Addr × Option Addr) :=
        if item' = s.allConnections then
          some ([item], none)
        else do
          let (visited, found) ← doWhile s code turns item'
          some (item :: visited, found)
      match ← code s item with
      | (item', .breaks) => some ([item], item')
      | (item', .continues) => test item'
      | (item', .fall) => test (← s.nextConn item')

/-- `FOR_EACH_CONN`. -/
def forEachConn (s : ConnectionRing) (code : LoopCode) : Option (List Addr × Option Addr) :=
  if s.allConnections = none then some ([], none) else s.doWhile code s.live.length s.allConnections

/-- `IS_HTTP`. -/
def isHttp : Protocol → Bool
  | .http _ => true
  | .gpip _ => false

/-- Whether an HTTP connection has a port and an address. -/
def isPeerOf (port : UInt16) (ipAddr : UInt32) : Protocol → Bool
  | .http c => c.port = port && c.ipAddr = ipAddr
  | .gpip _ => false

/-- The code of the loop in `smews_receive` that searches the connection of a segment. -/
def lookupCode (port : UInt16) (ipAddr : UInt32) : LoopCode := fun s conn => do
  let c ← s.read (some conn)
  if !isHttp c.protocol then
    some (← s.nextConn (some conn), .continues)
  else if isPeerOf port ipAddr c.protocol then
    some (some conn, .breaks)
  else
    some (some conn, .fall)

/-- The connection of a segment. -/
def lookup (port : UInt16) (ipAddr : UInt32) (s : ConnectionRing) : Option (Option Addr) := do
  some (← s.forEachConn (lookupCode port ipAddr)).2

--------------------------------------------------
-- `smews_receive`
--------------------------------------------------

/-- The beginning: a connection that was found is copied. For a new one only the links of `tmp_connection` stay. -/
def beginReceive (port : UInt16) (ipAddr : UInt32) (listen : Protocol) (s : ConnectionRing)
    : Option ConnectionRing := do
  let connection ← s.lookup port ipAddr
  if connection = none then
    some { s with connection, tmpConnection := { s.tmpConnection with protocol := listen } }
  else
    some { s with connection, tmpConnection := ← s.read connection }

/-- The TCP state of a connection. -/
def tcpState : Protocol → Option TcpState
  | .http c => some c.tcpState
  | .gpip _ => none

/-- The end: a new connection is inserted, and `tmp_connection` is written back unless it is freed or reset. -/
def endReceive (block : Option Addr) (s : ConnectionRing) : Option ConnectionRing := do
  let s ←
    if s.connection = none ∧ tcpState s.tmpConnection.protocol = some .synRcvd then do
      let (connection, s) ← s.addConnection s.tmpConnection block
      if connection = none then
        some s
      else do
        let c ← s.read connection
        some { s with connection, tmpConnection := { s.tmpConnection with prev := c.prev, next := c.next } }
    else
      some s
  match s.connection with
  | none => some s
  | some a =>
      if tcpState s.tmpConnection.protocol = some .listen then s.freeConnection a
      else s.store (some a) fun _ => s.tmpConnection

--------------------------------------------------
-- Rings that are intact
--------------------------------------------------

/-- `next` of the connections. -/
def next (s : ConnectionRing) (a : Addr) : Option Addr := (s.cells a).next

/-- `prev` of the connections. -/
def prev (s : ConnectionRing) (a : Addr) : Option Addr := (s.cells a).prev

/-- The connections form one ring, which the list gives from `all_connections` on. -/
structure Intact (s : ConnectionRing) (l : List Addr) : Prop where
  ring : Ring s.next s.prev l
  members : ∀ a, a ∈ l ↔ a ∈ s.live
  first : s.allConnections = l.head?

variable {s s' : ConnectionRing} {l front back : List Addr} {a b : Addr}

@[simp] theorem put_live (f : Cell → Cell) : (s.put a f).live = s.live := rfl

@[simp] theorem put_allConnections (f : Cell → Cell) : (s.put a f).allConnections = s.allConnections := rfl

@[simp] theorem put_cells (f : Cell → Cell) : (s.put a f).cells = Function.update s.cells a (f (s.cells a)) := rfl

theorem read_eq (mem : a ∈ s.live) : s.read (some a) = some (s.cells a) := by
  rw [read, Option.bind_some, if_pos mem]

theorem store_eq {f : Cell → Cell} (mem : a ∈ s.live) : s.store (some a) f = some (s.put a f) := by
  rw [store, Option.bind_some, if_pos mem]

/-- `all_connections` is `NULL` exactly when there is no connection, and otherwise one of them. -/
theorem Intact.none_iff (intact : Intact s l) : s.allConnections = none ↔ s.live = [] := by
  rw [intact.first, List.head?_eq_none_iff, List.eq_nil_iff_forall_not_mem, List.eq_nil_iff_forall_not_mem]
  exact forall_congr' fun a => not_congr (intact.members a)

theorem Intact.first_mem (intact : Intact s l) (first : s.allConnections = some a) : a ∈ s.live :=
  (intact.members a).mp (List.mem_of_head? (intact.first.symm.trans first))

/-- `add_connection` inserts the new connection before `all_connections`. -/
theorem addConnection_intact (intact : Intact s l) (source : Cell) (fresh : a ∉ s.live)
    : ∃ s', s.addConnection source (some a) = some (some a, s') ∧ Intact s' (l ++ [a]) ∧ s'.live = a :: s.live
      ∧ (∀ b, (s'.cells b).protocol = if b = a then source.protocol else (s.cells b).protocol)
      ∧ s'.tmpConnection = s.tmpConnection ∧ s'.connection = s.connection := by
  have outside : a ∉ l := fun mem => fresh ((intact.members a).mp mem)
  have members (b : Addr) : b ∈ l ++ [a] ↔ b ∈ a :: s.live := by
    rw [List.mem_append, List.mem_singleton, List.mem_cons, intact.members b, or_comm]
  unfold addConnection
  cases head : s.allConnections with
  | none =>
      have empty : l = [] := List.head?_eq_none_iff.mp (intact.first.symm.trans head)
      subst empty
      simp only [store, put_live, List.mem_cons_self, if_pos, Option.bind_eq_bind, Option.bind_some]
      refine ⟨_, rfl, ⟨ring_singleton ⟨?_, ?_⟩, members, rfl⟩, rfl, fun b => ?_, rfl, rfl⟩
      · simp [next]
      · simp [prev]
      · by_cases own : b = a
        · simp [own]
        · simp [own]
  | some first =>
      have head' : l.head? = some first := intact.first.symm.trans head
      obtain ⟨last, tail⟩ : ∃ last, l.getLast? = some last :=
        ⟨_, List.getLast?_eq_some_getLast (by rintro rfl; cases head')⟩
      have closing := ((ring_iff head' tail).mp intact.ring).2.2
      have first_mem := (intact.members first).mp (List.mem_of_head? head')
      have last_mem := (intact.members last).mp (List.mem_of_getLast? tail)
      have first_other : first ≠ a := by
        rintro rfl
        exact fresh first_mem
      have last_other : last ≠ a := by
        rintro rfl
        exact fresh last_mem
      have prev_first : (s.cells first).prev = some last := closing.2
      simp only [reduceCtorEq, read, store, put_live, put_cells, put_allConnections, List.mem_cons, first_mem, last_mem,
        or_true, true_or, if_true, if_false, Option.bind_eq_bind, Option.bind_some, Function.update_self,
        Function.update_of_ne first_other, prev_first]
      refine ⟨_, rfl, ⟨?_, members, ?_⟩, rfl, fun b => ?_, rfl, rfl⟩
      · refine intact.ring.insert head' tail outside ⟨?_, ?_⟩ ⟨?_, ?_⟩ (fun b mem other => ?_) fun b mem other => ?_
        · by_cases one : last = first
          · simp [next, Function.update_apply, one, first_other]
          · simp [next, Function.update_apply, one, last_other]
        · simp [prev, Function.update_apply, first_other.symm, last_other.symm]
        · simp [next, Function.update_apply, first_other.symm]
        · simp [prev]
        · have other' : b ≠ a := by
            rintro rfl
            exact outside mem
          by_cases own : b = first
          · simp [next, Function.update_apply, own ▸ other, own ▸ other', own]
          · simp [next, Function.update_apply, other, other', own]
        · have other' : b ≠ a := by
            rintro rfl
            exact outside mem
          by_cases own : b = last
          · simp [prev, Function.update_apply, own ▸ other, own ▸ other', own]
          · simp [prev, Function.update_apply, other, other', own]
      · simp [head']
      · by_cases own : b = a
        · simp [Function.update_apply, own, first_other.symm, last_other.symm]
        · simp only [put_cells, Function.update_apply]
          split_ifs <;> simp_all

/-- `free_connection` joins the neighbours, and `all_connections` is the one behind. -/
theorem freeConnection_intact (intact : Intact s l) (split : l = front ++ a :: back)
    : ∃ s', s.freeConnection a = some s' ∧ Intact s' (back ++ front)
      ∧ (∀ b, (s'.cells b).protocol = (s.cells b).protocol)
      ∧ s'.tmpConnection = s.tmpConnection ∧ s'.connection = s.connection := by
  have ring : Ring s.next s.prev (a :: (back ++ front)) := by
    rw [split] at intact
    exact intact.ring.rotated
  have own : a ∈ s.live := (intact.members a).mp (split ▸ List.mem_append_right _ List.mem_cons_self)
  have outside : a ∉ back ++ front := (List.nodup_cons.mp ring.distinct).1
  have members (b : Addr) : b ∈ back ++ front ↔ b ∈ s.live.filter (· ≠ a) := by
    have mem := intact.members b
    rw [split, List.mem_append, List.mem_cons] at mem
    rw [List.mem_filter, ← mem, List.mem_append, decide_eq_true_eq]
    constructor
    · intro inside
      refine ⟨by tauto, ?_⟩
      rintro rfl
      exact outside (List.mem_append.mpr inside)
    · tauto
  unfold freeConnection
  cases tail : (back ++ front).getLast? with
  | none =>
      rw [List.getLast?_eq_none_iff] at tail
      rw [tail] at ring members ⊢
      obtain ⟨forth, back⟩ := (Cycle.chain_singleton _ a).mp ring.linked
      have next_a : (s.cells a).next = some a := forth
      have prev_a : (s.cells a).prev = some a := back
      simp only [read, store, put_live, put_cells, own, if_true, Option.bind_eq_bind, Option.bind_some,
        Function.update_self, next_a, prev_a]
      refine ⟨_, rfl, ⟨ring_nil, members, rfl⟩, fun b => ?_, rfl, rfl⟩
      by_cases same : b = a
      · simp [same]
      · simp [same]
  | some last =>
      obtain ⟨first, head⟩ : ∃ first, (back ++ front).head? = some first := by
        cases head : (back ++ front).head? with
        | none =>
            rw [List.head?_eq_none_iff.mp head] at tail
            cases tail
        | some first => exact ⟨first, rfl⟩
      obtain ⟨next_a, prev_a⟩ := ring.around head tail
      have next_a : (s.cells a).next = some first := next_a
      have prev_a : (s.cells a).prev = some last := prev_a
      have first_other : first ≠ a := by
        rintro rfl
        exact outside (List.mem_of_head? head)
      have last_other : last ≠ a := by
        rintro rfl
        exact outside (List.mem_of_getLast? tail)
      have first_mem := List.mem_of_mem_filter ((members first).mp (List.mem_of_head? head))
      have last_mem := List.mem_of_mem_filter ((members last).mp (List.mem_of_getLast? tail))
      simp only [read, store, put_live, put_cells, own, first_mem, last_mem, if_true, Option.bind_eq_bind,
        Option.bind_some, Function.update_of_ne first_other.symm, Function.update_of_ne last_other.symm, next_a,
        prev_a, Option.some.injEq, first_other.symm, if_false]
      refine ⟨_, rfl, ⟨?_, members, head.symm⟩, fun b => ?_, rfl, rfl⟩
      · refine ring.remove head tail ⟨?_, ?_⟩ (fun b mem other => ?_) fun b mem other => ?_
        · by_cases one : last = first
          · simp [next, one]
          · simp [next, Function.update_apply, one]
        · simp [prev]
        · by_cases same : b = first
          · simp [next, same ▸ other, same]
          · simp [next, Function.update_apply, other, same]
        · by_cases same : b = last
          · simp [prev, Function.update_apply, same ▸ other, same]
          · simp [prev, Function.update_apply, other, same]
      · simp only [Function.update_apply]
        split_ifs <;> simp_all

/-- The rotation of `smews_send`. -/
theorem rotate_intact (intact : Intact s l) (split : l = front ++ a :: back)
    : s.rotate a = some { s with allConnections := (back ++ (front ++ [a])).head? }
      ∧ Intact { s with allConnections := (back ++ (front ++ [a])).head? } (back ++ (front ++ [a])) := by
  have split' : l = (front ++ [a]) ++ back := by rw [split, List.append_assoc, List.singleton_append]
  have own : a ∈ s.live := (intact.members a).mp (split ▸ List.mem_append_right _ List.mem_cons_self)
  have ring : Ring s.next s.prev (back ++ (front ++ [a])) := by
    have ring := intact.ring
    rw [split'] at ring
    exact ring.rotated
  refine ⟨?_, ring, fun b => ?_, rfl⟩
  · have tail : (back ++ (front ++ [a])).getLast? = some a := by simp
    obtain ⟨first, head⟩ : ∃ first, (back ++ (front ++ [a])).head? = some first := by
      cases head : (back ++ (front ++ [a])).head? with
      | none =>
          rw [List.head?_eq_none_iff.mp head] at tail
          cases tail
      | some first => exact ⟨first, rfl⟩
    have closing : (s.cells a).next = some first := ((ring_iff head tail).mp ring).2.2.1
    rw [rotate, read_eq own, Option.bind_eq_bind, Option.bind_some, closing, head]
  · rw [← intact.members b, split']
    exact List.perm_append_comm.mem_iff

/-- A store that keeps the links. -/
theorem put_intact (intact : Intact s l) {f : Cell → Cell} (next_kept : (f (s.cells a)).next = s.next a)
    (prev_kept : (f (s.cells a)).prev = s.prev a)
    : Intact (s.put a f) l := by
  refine ⟨intact.ring.congr (fun b _ => ?_) fun b _ => ?_, intact.members, intact.first⟩
  · by_cases own : b = a
    · subst own
      simpa [next] using next_kept
    · simp [next, own]
  · by_cases own : b = a
    · subst own
      simpa [prev] using prev_kept
    · simp [prev, own]

/-- A store through which the ring stays one keeps the links. -/
theorem put_keeps (intact : Intact s l) {f : Cell → Cell} {l' : List Addr} (mem : a ∈ s.live)
    (after : Intact (s.put a f) l')
    : (f (s.cells a)).next = s.next a ∧ (f (s.cells a)).prev = s.prev a := by
  have same (b : Addr) : b ∈ l' ↔ b ∈ l := (after.members b).trans (intact.members b).symm
  have determined := intact.ring.determined after.ring ((intact.members a).mpr mem) same
    (fun b other => by simp [next, other]) fun b other => by simp [prev, other]
  simpa [next, prev] using determined

--------------------------------------------------
-- Visits
--------------------------------------------------

/-- The code of a loop leaves the item where it is, or moves it with `NEXT_CONN` before a `continue`. -/
def Advances (s : ConnectionRing) (code : LoopCode) : Prop :=
  ∀ a ∈ s.live, code s a = some (some a, .fall) ∨ code s a = some (some a, .breaks)
    ∨ code s a = (s.nextConn (some a)).map fun item => (item, .continues)

/-- Whether the code of a loop ends with `break`. -/
def breaksAt (s : ConnectionRing) (code : LoopCode) (a : Addr) : Bool :=
  match code s a with
  | some (_, .breaks) => true
  | _ => false

/-- The loop from a connection on, by induction on those behind it. -/
theorem doWhile_visits {code : LoopCode} {rest : List Addr} {turns : Nat} (advances : Advances s code)
    (live : ∀ b ∈ a :: rest, b ∈ s.live) (chain : (a :: rest).IsChain fun b c => s.next b = some c)
    (closing : ∀ b ∈ (a :: rest).getLast?, s.next b = s.allConnections)
    (inside : ∀ b ∈ rest, some b ≠ s.allConnections) (enough : rest.length < turns)
    : s.doWhile code turns (some a)
      = some ((a :: rest).takeWhile (!s.breaksAt code ·) ++ ((a :: rest).find? (s.breaksAt code)).toList,
        (a :: rest).find? (s.breaksAt code)) := by
  induction rest generalizing a turns with
  | nil =>
      obtain ⟨turns, rfl⟩ := Nat.exists_eq_succ_of_ne_zero (Nat.ne_of_gt enough)
      have own := live a List.mem_cons_self
      have back : (s.cells a).next = s.allConnections := closing a rfl
      rcases advances a own with fall | breaks | continues
      · simp [doWhile, fall, nextConn, read_eq own, back, breaksAt]
      · simp [doWhile, breaks, breaksAt]
      · rw [nextConn, read_eq own] at continues
        simp [doWhile, continues, back, breaksAt]
  | cons b rest ih =>
      obtain ⟨turns, rfl⟩ := Nat.exists_eq_succ_of_ne_zero (Nat.ne_of_gt (Nat.zero_lt_of_lt enough))
      have own := live a List.mem_cons_self
      obtain ⟨forth, chain⟩ := List.isChain_cons_cons.mp chain
      have forth : (s.cells a).next = some b := forth
      have onward : some b ≠ s.allConnections := inside b List.mem_cons_self
      have further := @ih b turns (fun c mem => live c (List.mem_cons_of_mem _ mem)) chain
        (fun c tail => closing c (by rwa [List.getLast?_cons_cons])) (fun c mem => inside c (List.mem_cons_of_mem _ mem))
        (Nat.lt_of_succ_lt_succ enough)
      rcases advances a own with fall | breaks | continues
      · have here : s.breaksAt code a = false := by rw [breaksAt, fall]
        simp [doWhile, fall, nextConn, read_eq own, forth, onward, further, here, List.takeWhile_cons, List.find?_cons]
      · have here : s.breaksAt code a = true := by rw [breaksAt, breaks]
        simp [doWhile, breaks, here]
      · rw [nextConn, read_eq own] at continues
        have here : s.breaksAt code a = false := by
          rw [breaksAt, continues]
          rfl
        simp [doWhile, continues, forth, onward, further, here, List.takeWhile_cons, List.find?_cons]

/-- `FOR_EACH_CONN` ends, and visits each connection once, in the order of the ring, up to the `break`. -/
theorem forEachConn_visits {code : LoopCode} (intact : Intact s l) (advances : Advances s code)
    : s.forEachConn code
      = some (l.takeWhile (!s.breaksAt code ·) ++ (l.find? (s.breaksAt code)).toList, l.find? (s.breaksAt code)) := by
  unfold forEachConn
  cases l with
  | nil => rw [intact.first, List.head?_nil, if_pos rfl, List.takeWhile_nil, List.find?_nil]; rfl
  | cons a rest =>
      obtain ⟨last, tail⟩ : ∃ last, (a :: rest).getLast? = some last := ⟨_, List.getLast?_eq_some_getLast (by simp)⟩
      obtain ⟨distinct, chain, closing⟩ := (ring_iff rfl tail).mp intact.ring
      rw [intact.first, List.head?_cons, if_neg (by simp)]
      refine doWhile_visits advances (fun b mem => (intact.members b).mp mem) (chain.imp fun _ _ joined => joined.1)
        (fun b at_last => ?_) (fun b mem own => ?_) ?_
      · rw [tail, Option.mem_some_iff] at at_last
        rw [← at_last, intact.first]
        exact closing.1
      · rw [intact.first, List.head?_cons, Option.some.injEq] at own
        exact (List.nodup_cons.mp distinct).1 (own ▸ mem)
      · exact (distinct.subperm fun b mem => (intact.members b).mp mem).length_le

/-- The search in `smews_receive` is a loop that advances. -/
theorem lookupCode_advances (port : UInt16) (ipAddr : UInt32) : Advances s (lookupCode port ipAddr) := by
  intro a own
  simp only [lookupCode, read_eq own, Option.bind_eq_bind, Option.bind_some]
  split
  · refine .inr (.inr ?_)
    rw [nextConn, read_eq own]
    rfl
  · split
    · exact .inr (.inl rfl)
    · exact .inl rfl

/-- It finds the first HTTP connection of a peer. -/
theorem lookup_finds (intact : Intact s l) (port : UInt16) (ipAddr : UInt32)
    : s.lookup port ipAddr = some (l.find? fun a => isPeerOf port ipAddr (s.cells a).protocol) := by
  rw [lookup, forEachConn_visits intact (lookupCode_advances port ipAddr), Option.bind_eq_bind, Option.bind_some]
  refine congrArg some (List.find?_congr fun a mem => ?_)
  rw [breaksAt, lookupCode, read_eq ((intact.members a).mp mem), Option.bind_eq_bind, Option.bind_some]
  cases protocol : (s.cells a).protocol with
  | http c =>
      simp only [isHttp, Bool.not_true, Bool.false_eq_true, if_false]
      cases found : isPeerOf port ipAddr (.http c) <;> rfl
  | gpip g =>
      simp [isHttp, isPeerOf, nextConn, read_eq ((intact.members a).mp mem)]

end ConnectionRing

end Smews.Core
