import Interop.Proofs.NameSearch
import Interop.Proofs.QueueSearch
import Interop.Proofs.Respacing
import Interop.Proofs.Typedef

/-! Searching the alias tables. A repository asks the tables in the order in which it looks up names: its own first
and then breadth-first, although tables are asked when their repositories leave the queue, and symbols when they
are met. A table makes one hop, over which the pointer markers behind an alias are carried. Main statement:
`aliasHop_searches_tables`. -/

namespace Interop

namespace Graph

open Relation

variable {g : Graph} {id : RepositoryId}

/-- What the alias table of a repository itself replaces a spelling by. -/
def tableHop? (g : Graph) (s : Spelling) (id : RepositoryId) : Option Spelling :=
  (g.repository? id).bind (·.aliasTable.hop s)

theorem aliasHop_eq_findSome? (s : Spelling) : g.aliasHop id s = (g.reachable id).findSome? (g.tableHop? s) := rfl

/-- A repository asks the alias tables in the order in which it looks up names. -/
structure SearchesTables (g : Graph) (id : RepositoryId) (r : Repository) : Prop where
  order : Reach.BreadthFirst g.boundOf id (g.reachable id)
  /-- The first table in this order that replaces a spelling counts. -/
  found : ∀ s target, g.aliasHop id s = some target ↔ ∃ before a after,
    g.reachable id = before ++ a :: after ∧ g.tableHop? s a = some target ∧ ∀ b ∈ before, g.tableHop? s b = none
  missed : ∀ s, g.aliasHop id s = none ↔
    ∀ a, ReflTransGen (fun a b => b ∈ g.boundOf a) id a → g.tableHop? s a = none
  /-- Tables are asked as their repositories leave the queue. -/
  leaving : ∀ s, Reach.FindsLeaving g.boundOf (g.tableHop? s) [id] [id] [] (g.aliasHop id s)
  /-- Names are looked up in the same order, though symbols are asked for as repositories are met. -/
  names : r.isLinked = true → ∀ name, g.FindsNearest id r name ∧
    ∃ met, Reach.FindsMeeting g.boundOf (g.offer? id name) [id] [id] [] met ∧
      g.lookupSymbol id name = ((g.offer? id name id).or met).elim
        (.error (.unresolvedSymbol name r.key.canonicalName)) .ok
  /-- A repository that is not linked asks its own table, and finds its own symbols. -/
  alone : r.isLinked = false → g.reachable id = [id] ∧ ∀ name, g.FindsOwn id r name

end Graph

namespace AliasTable

/-- A table replaces a spelling by a target, behind which it carries pointer markers over. -/
structure CarriesOver (table : AliasTable) (s target : Spelling) (depth : Nat) : Prop where
  hop : table.hop s = some (target.addPointers depth)
  text : (target.addPointers depth).text = target.text ++ String.ofList (List.replicate depth '*')
  base : (target.addPointers depth).base = target.base
  pointerDepth : (target.addPointers depth).pointerDepth = target.pointerDepth + depth
  /-- Nothing but the entries for the spelling and for its base matters, whatever there is for the target. -/
  once : ∀ other : AliasTable, other.find? s = table.find? s →
    other.find? (.ofString s.base) = table.find? (.ofString s.base) → other.hop s = table.hop s

theorem hop_of_find? {table : AliasTable} {s target : Spelling} (h : table.find? s = some target) :
    table.hop s = some target := by
  rw [hop, h]

theorem hop_congr {table other : AliasTable} {s : Spelling} (h : other.find? s = table.find? s)
    (hbase : other.find? (.ofString s.base) = table.find? (.ofString s.base)) : other.hop s = table.hop s := by
  rw [hop, hop, h, hbase]

/-- Blanks and pointer markers behind an alias without markers are the same markers behind its target. -/
theorem hop_append_marks {table : AliasTable} {key target marks : String} (hplain : '*' ∉ key.toList)
    (hentry : table.find? (.ofString key) = some (.ofString target))
    (hmarks : ∀ c ∈ marks.toList, isBlank c = true ∨ c = '*')
    (hfresh : marks.toList.count '*' ≠ 0 →
      table.find? ((Spelling.ofString key).addPointers (marks.toList.count '*')) = none) :
    table.hop (.ofString (key ++ marks)) =
      some ((Spelling.ofString target).addPointers (marks.toList.count '*')) := by
  have hnormal := Spelling.isNormal_ofString key
  have hdepth : (Spelling.ofString key).pointerDepth = 0 := by
    rw [Spelling.pointerDepth_ofString, List.count_eq_zero]
    exact hplain
  rw [Spelling.ofString_append_marks key hmarks]
  generalize marks.toList.count '*' = depth at hfresh ⊢
  by_cases hzero : depth = 0
  · rw [hzero, hnormal.addPointers_zero, (Spelling.isNormal_ofString target).addPointers_zero]
    exact hop_of_find? hentry
  · rw [hop_addPointers hnormal hdepth hzero (hfresh hzero), hop_of_find? hentry, Option.map_some]

end AliasTable

/-- The repositories that bound includes lead to are asked in breadth-first order, wherever they are asked. -/
theorem History.Consistent.searchesTables {h : History} (hh : h.Consistent) {id : RepositoryId} {r : Repository}
    (hr : h.graph.repository? id = some r)
    (howner : ∀ dependency ∈ r.includes, dependency.owner = r.key.canonicalName) :
    h.graph.SearchesTables id r := by
  have horder := hh.breadthFirst_reachable hr
  have hclosed : ∀ a ∈ h.graph.ids, ∀ b ∈ h.graph.boundOf a, b ∈ h.graph.ids :=
    fun _ _ _ hb => hh.mem_ids_of_mem_boundOf hb
  have hsize : h.graph.ids.length ≤ h.graph.size := by simp [Graph.ids]
  have hid : id ∈ h.graph.ids := Graph.mem_ids.mpr (Graph.lt_of_repository? hr)
  constructor
  case order => exact horder
  case found =>
    intro s target
    rw [Graph.aliasHop_eq_findSome?, List.findSome?_eq_some_iff]
  case missed =>
    intro s
    rw [Graph.aliasHop_eq_findSome?, List.findSome?_eq_none_iff]
    exact forall_congr' fun a => imp_congr_left (horder.mem_iff a)
  case leaving => exact fun s => Reach.findsLeaving_nodes hclosed hsize hid _
  case names =>
    intro hlinked name
    have hbound := hh.exists_bound_of_isLinked hr hlinked
    obtain ⟨met, hreachable, hmeeting⟩ :=
      Reach.findsMeeting_nodes hclosed hsize hid (h.graph.offer? id name)
    refine ⟨Graph.findsNearest_of_bound hr horder hbound name, _, hmeeting, ?_⟩
    rw [Graph.lookupSymbol_of_bound horder hbound, Graph.reachable, hreachable, List.findSome?_cons,
      Graph.canonicalName_eq hr]
    cases h.graph.offer? id name id <;> rfl
  case alone =>
    intro hlinked
    have hunbound := hh.unbound_of_not_isLinked hr hlinked
    refine ⟨Graph.reachable_of_unbound ?_, Graph.findsOwn_of_unbound hr hunbound howner⟩
    rwa [Graph.includesOf_eq hr]

/-- Alias tables are asked in the order in which names are looked up: breadth-first over the bound includes, that
of the repository itself first. The first one that replaces a spelling counts, and a spelling stays as it is
exactly if none of them replaces it. A table replaces an alias without pointer markers once, with the markers that
stand behind it, unless it has the alias with these markers as well. -/
theorem aliasHop_searches_tables {g : Graph} (hg : Obtained g) {id : RepositoryId} {r : Repository}
    (hr : g.repository? id = some r) :
    g.SearchesTables id r ∧
    ∀ (table : AliasTable) (key target marks : String), '*' ∉ key.toList →
      table.find? (.ofString key) = some (.ofString target) →
      (∀ c ∈ marks.toList, isBlank c = true ∨ c = '*') →
      (marks.toList.count '*' ≠ 0 →
        table.find? ((Spelling.ofString key).addPointers (marks.toList.count '*')) = none) →
      table.CarriesOver (.ofString (key ++ marks)) (.ofString target) (marks.toList.count '*') := by
  have howner := hg.owner_eq hr
  obtain ⟨h, hh, rfl⟩ := hg.exists_consistent
  refine ⟨hh.searchesTables hr howner, fun table key target marks hplain hentry hmarks hfresh => ?_⟩
  exact {
    hop := AliasTable.hop_append_marks hplain hentry hmarks hfresh
    text := (Spelling.isNormal_ofString target).text_addPointers _
    base := Spelling.base_addPointers _ _
    pointerDepth := Spelling.pointerDepth_addPointers _ _
    once := fun _ => AliasTable.hop_congr }

namespace Sample

/-- An alias of a native type. -/
def tick (target : String) : Description.Alias where
  name := some "Tick"
  ctype := some "Tick"
  target := some { name := some target, ctype := some target }

/-- Four namespaces with two aliases of one spelling. The last namespace includes one without aliases first, which
includes one of those that have the alias, and then the other one of these. -/
def diamond : Graph := ({} : Graph).after [
  .register (description "Base" [] [tick "gint"]),
  .register (description "Left" ["Base"] []),
  .register (description "Right" ["Base"] [tick "glong*"]),
  .register (description "Top" ["Left", "Right"] []),
  .link]

def tickAlias (target : String) : Alias :=
  ⟨.pascal "Tick", .ofString "Tick", .scalar ⟨some target, some (.ofString target)⟩ .aliasTarget⟩

def top : Repository where
  content := { key := ⟨"Top", "2.0"⟩ }
  includes := [⟨⟨"Left", "2.0"⟩, "Top-2.0", some ⟨1⟩⟩, ⟨⟨"Right", "2.0"⟩, "Top-2.0", some ⟨2⟩⟩]

theorem diamond_eq : diamond = {
    repositories := [
      { content := { key := ⟨"Base", "2.0"⟩, aliases := [tickAlias "gint"] }, includes := [] },
      { content := { key := ⟨"Left", "2.0"⟩ }, includes := [⟨⟨"Base", "2.0"⟩, "Left-2.0", some ⟨0⟩⟩] },
      { content := { key := ⟨"Right", "2.0"⟩, aliases := [tickAlias "glong*"] },
        includes := [⟨⟨"Base", "2.0"⟩, "Right-2.0", some ⟨0⟩⟩] },
      top]
    positions := [(⟨"Top", "2.0"⟩, ⟨3⟩), (⟨"Right", "2.0"⟩, ⟨2⟩), (⟨"Left", "2.0"⟩, ⟨1⟩), (⟨"Base", "2.0"⟩, ⟨0⟩)]
    edges := [(⟨2⟩, ⟨3⟩), (⟨1⟩, ⟨3⟩), (⟨0⟩, ⟨1⟩), (⟨0⟩, ⟨2⟩)]
    buildOrder := [⟨0⟩, ⟨2⟩, ⟨1⟩, ⟨3⟩] } := by
  cbv

/-- A table in which the target of an alias is an alias as well, and another alias stands for itself. -/
def chained : AliasTable :=
  ⟨[(.ofString "A", .ofString "B*"), (.ofString "B*", .ofString "gint"), (.ofString "Loop", .ofString "Loop")]⟩

end Sample

open Sample in
theorem aliasHop_searches_tables_diamond :
    diamond.SearchesTables ⟨3⟩ top ∧
      diamond.aliasHop ⟨3⟩ (.ofString "Tick *") = some (.ofString "glong**") ∧
      chained.CarriesOver (.ofString ("A" ++ " *")) (.ofString "B*") 1 ∧
      chained.CarriesOver (.ofString ("Loop" ++ "**")) (.ofString "Loop") 2 := by
  have htop : diamond.repository? ⟨3⟩ = some top := by
    rw [diamond_eq]
    rfl
  have hdiamond : Obtained diamond := Obtained.empty.after _
  obtain ⟨hsearches, htables⟩ := aliasHop_searches_tables hdiamond htop
  refine ⟨hsearches, ?_, ?_, ?_⟩
  · refine (hsearches.found _ _).mpr ⟨[⟨3⟩, ⟨1⟩], ⟨2⟩, [⟨0⟩], ?_, ?_, ?_⟩
    · rw [diamond_eq]
      decide
    · rw [diamond_eq]
      decide +kernel
    · rw [diamond_eq]
      decide +kernel
  · exact htables chained "A" "B*" " *" (by decide) (by decide +kernel) (by simp [isBlank])
      fun _ => by decide +kernel
  · exact htables chained "Loop" "Loop" "**" (by decide) (by decide +kernel) (by simp [isBlank])
      fun _ => by decide +kernel

end Interop
