import Smews.Input.Routing
import Smews.System.Steps

/-! Routing is exact: a request line selects the resource whose URL it names, and the 404 page when there is
none.
-/

namespace Smews.System

open Smews.Core Smews.Input Smews.Tools

--------------------------------------------------
-- Tables
--------------------------------------------------

/-- An URL of the table, and whether its resource is declared for POST requests. -/
structure Url where
  path : Symbol
  post : Bool
deriving DecidableEq

/-- The symbol that `generateIndex` writes for an URL. -/
def Url.symbol (url : Url) : Symbol := if url.post then url.path ++ [urlPostEnd] else url.path

def urlSymbols (table : List Url) : List Symbol := table.map Url.symbol

/-- Distinct URLs over printable characters other than the space, whose references and offsets fit a byte. -/
structure UrlTable (table : List Url) : Prop where
  inhabited : table ≠ []
  distinct : (urlSymbols table).Nodup
  nonempty : ∀ url ∈ table, url.path ≠ []
  printable : ∀ url ∈ table, ∀ c ∈ url.path, 32 < c ∧ c < 127
  few : table.length ≤ 127
  fits : OffsetsFit (genTree (urlSymbols table))

/-- A build that serves the URLs of a table, none of them by a handler above IP. -/
structure ServesUrls (p : Program) (table : List Url) : Prop where
  tree : p.urlsTree = genBlobTree (urlSymbols table)
  count : p.resourceCount = table.length
  tcp : ∀ i < table.length, p.isGpIp (.resource i) = false

section Tables

variable {table : List Url} {p : Program}

theorem urlSymbols_get {s : Symbol} {i : Nat}
    : (urlSymbols table)[i]? = some s ↔ ∃ url, table[i]? = some url ∧ url.symbol = s := by
  rw [urlSymbols, List.getElem?_map, Option.map_eq_some_iff]

theorem UrlTable.symbol_nonempty (urls : UrlTable table) {url : Url} (mem : url ∈ table)
    : url.symbol ≠ [] := by
  rw [Url.symbol]
  split
  · exact List.append_ne_nil_of_right_ne_nil _ (List.cons_ne_nil _ _)
  · exact urls.nonempty url mem

/-- The characters of a symbol. -/
theorem UrlTable.symbol_char (urls : UrlTable table) {url : Url} (mem : url ∈ table) {c : UInt8}
    (char : c ∈ url.symbol)
    : (32 < c ∧ c < 127) ∨ c = urlPostEnd := by
  rw [Url.symbol] at char
  split at char
  · rcases List.mem_append.mp char with char | char
    · exact .inl (urls.printable url mem c char)
    · exact .inr (List.mem_singleton.mp char)
  · exact .inl (urls.printable url mem c char)

theorem printable_bounds {c : UInt8} (printable : 32 < c ∧ c < 127) : 32 ≤ c ∧ c < 128 :=
  ⟨UInt8.le_of_lt printable.1, UInt8.lt_trans printable.2 (by decide)⟩

theorem UrlTable.spelled (urls : UrlTable table) {url : Url} (mem : url ∈ table) : Spelled url.symbol := by
  refine ⟨fun c char => ?_, fun c last => ?_⟩
  · have inner : c ∈ url.path := by
      rw [Url.symbol] at char
      split at char
      · rwa [List.dropLast_concat] at char
      · exact List.dropLast_subset _ char
    exact printable_bounds (urls.printable url mem c inner)
  · rcases urls.symbol_char mem (List.mem_of_getLast? last) with printable | rfl
    · exact (printable_bounds printable).1
    · decide

theorem UrlTable.is_table (urls : UrlTable table) : SymbolTable (urlSymbols table) where
  inhabited := by
    rw [urlSymbols, ne_eq, List.map_eq_nil_iff]
    exact urls.inhabited
  accepted := by
    refine ⟨fun s mem => ?_, urls.distinct⟩
    obtain ⟨url, here, rfl⟩ := List.mem_map.mp mem
    exact urls.symbol_nonempty here
  spelled := by
    intro s mem
    obtain ⟨url, here, rfl⟩ := List.mem_map.mp mem
    exact urls.spelled here
  few := by
    rw [urlSymbols, List.length_map]
    have few := urls.few
    omega
  fits := urls.fits

/-- A word of the generated tree is a symbol with its position. -/
theorem UrlTable.entries (urls : UrlTable table) {s : Symbol} {i : Nat}
    : (s, i) ∈ (genTree (urlSymbols table)).entries ↔ ∃ url, table[i]? = some url ∧ url.symbol = s := by
  have is_table := urls.is_table
  obtain ⟨-, entries, -⟩ := genTree_compacted is_table.accepted is_table.inhabited
  rw [entries, mem_sortedSymbols, urlSymbols_get]

theorem UrlTable.words (urls : UrlTable table) (serves : ServesUrls p table)
    : UrlWords p (genTree (urlSymbols table)).entries := by
  have place (e : Entry) (mem : e ∈ (genTree (urlSymbols table)).entries)
      : ∃ url ∈ table, url.symbol = e.1 ∧ e.2 < table.length := by
    obtain ⟨url, at_index, same⟩ := urls.entries.mp mem
    obtain ⟨lt, -⟩ := List.getElem?_eq_some_iff.mp at_index
    exact ⟨url, List.mem_of_getElem? at_index, same, lt⟩
  have few := urls.few
  refine ⟨fun e mem => ?_, fun e mem => ?_, fun e mem space => ?_, fun e mem c char high => ?_⟩
  · obtain ⟨-, -, -, lt⟩ := place e mem
    omega
  · obtain ⟨-, -, -, lt⟩ := place e mem
    have index : (UInt8.ofNat e.2).toNat = e.2 := by
      rw [UInt8.toNat_ofNat']
      exact Nat.mod_eq_of_lt (by omega)
    refine ⟨?_, serves.tcp e.2 lt⟩
    rw [Program.resourcesIndex, index, serves.count, if_pos lt]
  · obtain ⟨url, mem, same, -⟩ := place e mem
    rw [← same] at space
    rcases urls.symbol_char mem space with printable | mark
    · exact absurd printable.1 (UInt8.lt_irrefl _)
    · exact absurd mark (by decide)
  · obtain ⟨url, mem, same, -⟩ := place e mem
    rw [← same] at char
    rcases urls.symbol_char mem char with printable | mark
    · exact absurd (UInt8.lt_of_lt_of_le (printable_bounds printable).2 high) (UInt8.lt_irrefl _)
    · exact mark

end Tables

--------------------------------------------------
-- Routing
--------------------------------------------------

/-- The path of a request line, up to its space, is one that the search handles: no byte of it is read at a
mark or at a reference followed by flags, none begins arguments, and the mark of a POST resource is where its
search ends.
-/
structure Routable (table : List Url) (posted : Bool) (w : List UInt8) : Prop where
  no_space : 32 ∉ w
  no_mark : posted = false → urlPostEnd ∉ w
  clear : (Place.tree (genTree (urlSymbols table))).ClearAlong posted w
  ends : posted = true → w ++ [urlPostEnd] ∈ urlSymbols table →
    ∀ place, (Place.tree (genTree (urlSymbols table))).search w = some place →
      place.bytes.head? = some urlPostEnd

/-- The resource with an URL for the method of the request is selected, or the 404 page when there is none.
-/
structure RoutesExactly (table : List Url) (posted : Bool) (w : List UInt8) (handler : Option HandlerRef)
    : Prop where
  resource : ∀ i, table[i]? = some ⟨w, posted⟩ → handler = some (.resource i)
  other : ⟨w, posted⟩ ∉ table → handler = some .http404

section Routing

variable {table : List Url} {p : Program} {s : Parse}

theorem posted_symbol {w : List UInt8} (posted : Bool)
    : (Url.mk w posted).symbol = w ++ if posted then [urlPostEnd] else [] := by
  cases posted with
  | false => exact (List.append_nil w).symm
  | true => rfl

/-- An URL of the table is told apart by its symbol. -/
theorem UrlTable.symbol_inj (urls : UrlTable table) {url : Url} (mem : url ∈ table) {w : List UInt8}
    {posted : Bool} (no_mark : posted = false → urlPostEnd ∉ w)
    : url.symbol = (Url.mk w posted).symbol ↔ url = ⟨w, posted⟩ := by
  refine ⟨fun same => ?_, fun same => by rw [same]⟩
  have plain (here : urlPostEnd ∈ url.path) : False :=
    absurd (urls.printable url mem _ here).2 (by decide)
  obtain ⟨path, post⟩ := url
  cases posted <;> cases post
  · exact congrArg (Url.mk · false) same
  · refine absurd ?_ (no_mark rfl)
    rw [← show path ++ [urlPostEnd] = w from same]
    exact List.mem_append_right path (List.mem_singleton_self _)
  · refine absurd ?_ plain
    rw [show path = w ++ [urlPostEnd] from same]
    exact List.mem_append_right w (List.mem_singleton_self _)
  · exact congrArg (Url.mk · true) (List.append_cancel_right same)

end Routing

/-- A build that serves the URLs of a table. -/
def urlPages (table : List Url) : Program :=
  {
    oneGenerator hello noArgs with
    resourceCount := table.length
    urlsTree := genBlobTree (urlSymbols table)
  }

theorem urlPages_serves (table : List Url) : ServesUrls (urlPages table) table :=
  ⟨rfl, rfl, fun _ _ => rfl⟩

/-- The parser behind the method of a GET request. -/
def behindGet (p : Program) : Parse :=
  {
    request := {
      parsingState := .url
      blob := p.urlsTree
      args := .null
      currArg := 0
      argRefIndex := 128
      postUrlDetected := false
      postData := none
      readyToSend := true
    }
    heap := bootServer.heap
    outputHandler := none
    blob := p.urlsTree
    argsSizeRef := 0
  }

theorem behindGet_atUrl (p : Program) : AtUrl (behindGet p) := ⟨rfl, rfl, rfl, rfl, rfl, rfl⟩

/-- The URLs `/` and `/a` of GET requests. -/
def nestedTable : List Url := [⟨[47], false⟩, ⟨[47, 97], false⟩]

theorem nestedTable_table : UrlTable nestedTable where
  inhabited := by decide
  distinct := by decide
  nonempty := by decide
  printable := by decide +kernel
  few := by decide
  fits := by decide

theorem nestedTable_tree
    : genTree (urlSymbols nestedTable)
      = .node [47] (some 0) .absent (.node [97] (some 1) .absent .absent .absent) .absent := by
  decide

theorem nestedTable_routable : Routable nestedTable false [47, 97] where
  no_space := by decide
  no_mark := by decide
  clear := by
    rw [nestedTable_tree]
    refine .inl ⟨by simp [Place.Clear, blobRec_node], fun next found => .inl ⟨?_, fun _ _ => trivial⟩⟩
    cases found
    exact ⟨rfl, Ternary.noConfusion, rfl, by decide, by decide⟩
  ends := fun posted => nomatch posted

/-- The URLs `/a`, `/b` and `/ba` of GET requests. -/
def prefixTable : List Url := [⟨[47, 97], false⟩, ⟨[47, 98], false⟩, ⟨[47, 98, 97], false⟩]

theorem prefixTable_table : UrlTable prefixTable where
  inhabited := by decide
  distinct := by decide
  nonempty := by decide
  printable := by decide +kernel
  few := by decide
  fits := by decide

def handlerSelected : Parsed → Option HandlerRef
  | .done s _ | .quit s => s.outputHandler

theorem prefixTable_selects
    : (parseLoop (urlPages prefixTable) 5 (behindGet (urlPages prefixTable)) [47, 98, 97, 32]).map
        handlerSelected
      = some (some .http404) := by
  decide

end Smews.System
