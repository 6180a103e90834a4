import Interop.Proofs.RoundTrip
import Mathlib.Data.List.Perm.Basic
import Mathlib.Logic.Relation

/-! Ways to write one description. The members of an object may stand in any order, with unknown members among
them and without those that are defaults, and an object may be written as the list of its members. Whatever way
is taken, at any depth, a description is read as the same. Main statement: `Description.legible`. -/

namespace Interop

/-! ### Rewriting -/

/-- What a value is read as. -/
inductive Shape
  | text
  | natural
  | boolean
  | optional (shape : Shape)
  | list (shape : Shape)
  /-- A structure with members of given names. -/
  | record (names : List String) (member : String → Shape)

namespace Shape

/-- The structure with the given members. -/
def ofMembers (members : List (String × Shape)) : Shape :=
  .record (members.map (·.1)) fun name => (members.lookup name).getD .text

/-- The values for which a member may as well be absent. The default of a structure has no members but
defaults. -/
def IsDefault : Shape → Datum → Prop
  | .optional _, d => d = .null
  | .list _, d => d = .list []
  | .boolean, d => d = .boolean false
  | .record names member, .table members =>
    (∀ name ∈ names, (members.filter (·.1 == name)).length ≤ 1) ∧
      ∀ entry ∈ members, entry.1 ∈ names → (member entry.1).IsDefault entry.2
  | .record names member, .list items =>
    items.length ≤ names.length ∧ ∀ entry ∈ names.zip items, (member entry.1).IsDefault entry.2
  | _, _ => False

end Shape

/-- One value is another one written in another way. -/
inductive Rewrites : Shape → Datum → Datum → Prop
  /-- The members stand in another order. -/
  | reordered {names : List String} {member : String → Shape} {members members' : List (String × Datum)}
    (h : members.Perm members') : Rewrites (.record names member) (.table members) (.table members')
  /-- Members that the structure does not have are added, changed or left out. -/
  | unknown {names : List String} {member : String → Shape} {members members' : List (String × Datum)}
    (h : members.filter (fun m => names.contains m.1) = members'.filter fun m => names.contains m.1) :
    Rewrites (.record names member) (.table members) (.table members')
  /-- A member that is a default is left out. -/
  | dropped {names : List String} {member : String → Shape} {before after : List (String × Datum)}
    {name : String} {d : Datum} (hname : name ∈ names) (hdefault : (member name).IsDefault d) :
    Rewrites (.record names member) (.table (before ++ (name, d) :: after)) (.table (before ++ after))
  /-- The members are listed in the order of the structure, with defaults for those that are absent. -/
  | listed {names : List String} {member : String → Shape} {members : List (String × Datum)}
    {items : List Datum}
    (h : List.Forall₂ (fun name d => members.lookup name = some d ∨
      members.lookup name = none ∧ (member name).IsDefault d) names items) :
    Rewrites (.record names member) (.table members) (.list items)
  /-- The last of the listed members is a default and left out. -/
  | shortened {names : List String} {member : String → Shape} {items : List Datum} {name : String} {d : Datum}
    (hname : names[items.length]? = some name) (hdefault : (member name).IsDefault d) :
    Rewrites (.record names member) (.list (items ++ [d])) (.list items)
  | inMember {names : List String} {member : String → Shape} {before after : List (String × Datum)}
    {name : String} {d d' : Datum} (hname : name ∈ names) (h : Rewrites (member name) d d') :
    Rewrites (.record names member) (.table (before ++ (name, d) :: after))
      (.table (before ++ (name, d') :: after))
  | inListed {names : List String} {member : String → Shape} {before after : List Datum} {name : String}
    {d d' : Datum} (hname : names[before.length]? = some name) (h : Rewrites (member name) d d') :
    Rewrites (.record names member) (.list (before ++ d :: after)) (.list (before ++ d' :: after))
  | inItem {shape : Shape} {before after : List Datum} {d d' : Datum} (h : Rewrites shape d d') :
    Rewrites (.list shape) (.list (before ++ d :: after)) (.list (before ++ d' :: after))
  | inValue {shape : Shape} {d d' : Datum} (h : Rewrites shape d d') : Rewrites (.optional shape) d d'

theorem Rewrites.ne_null {shape : Shape} {d d' : Datum} (h : Rewrites shape d d') : d ≠ .null ∧ d' ≠ .null := by
  induction h with
  | inValue _ ih => exact ih
  | _ => exact ⟨nofun, nofun⟩

/-- What becomes of a member of a structure. -/
inductive RewritesMember (shape : Shape) : Option Datum → Option Datum → Prop
  | same (x : Option Datum) : RewritesMember shape x x
  | changed {d d' : Datum} (h : Rewrites shape d d') : RewritesMember shape (some d) (some d')
  | dropped {d : Datum} (h : shape.IsDefault d) : RewritesMember shape (some d) none
  | filled {d : Datum} (h : shape.IsDefault d) : RewritesMember shape none (some d)

/-! ### Members -/

section Entries

variable {members members' before after : List (String × Datum)} {name key : String} {d d' : Datum}

theorem mem_of_lookup {α : Type} {entries : List (String × α)} {a : α} (h : entries.lookup name = some a) :
    (name, a) ∈ entries := by
  obtain ⟨before, after, rfl, -⟩ := List.lookup_eq_some_iff.mp h
  exact List.mem_append_right before List.mem_cons_self

theorem lookup_of_mem {α : Type} {entries : List (String × α)} (hnodup : (entries.map (·.1)).Nodup)
    {entry : String × α} (h : entry ∈ entries) : entries.lookup entry.1 = some entry.2 := by
  obtain ⟨before, after, rfl⟩ := List.append_of_mem h
  refine List.lookup_eq_some_iff.mpr ⟨before, after, rfl, fun other hother => bne_iff_ne.mpr fun heq => ?_⟩
  rw [List.map_append, List.map_cons] at hnodup
  refine (List.nodup_append.mp hnodup).2.2 other.1 (List.mem_map_of_mem hother) entry.1 ?_ heq.symm
  exact List.mem_cons_self

theorem lookup_eq_filter : members.lookup name = ((members.filter (·.1 == name)).head?).map (·.2) := by
  induction members with
  | nil => rfl
  | cons entry members ih =>
      obtain ⟨key, d⟩ := entry
      by_cases hkey : key = name
      · simp [hkey]
      · have hname : (name == key) = false := beq_eq_false_iff_ne.mpr (Ne.symm hkey)
        simp [List.lookup_cons, hname, hkey, ih]

/-- What stands under a name is what stands at its only place, whatever that is replaced by. -/
theorem filter_replaced (h : ((before ++ (name, d) :: after).filter (·.1 == name)).length ≤ 1)
    (x : Option Datum) :
    (before ++ ((x.map (name, ·)).toList ++ after)).filter (·.1 == key) =
      if name = key then (x.map (name, ·)).toList else (before ++ (name, d) :: after).filter (·.1 == key) := by
  by_cases hkey : name = key
  · subst hkey
    simp only [List.filter_append, List.filter_cons_of_pos, beq_self_eq_true, List.length_append,
      List.length_cons] at h
    have hbefore : before.filter (·.1 == name) = [] := List.eq_nil_of_length_eq_zero (by omega)
    have hafter : after.filter (·.1 == name) = [] := List.eq_nil_of_length_eq_zero (by omega)
    cases x <;> simp [List.filter_append, hbefore, hafter]
  · cases x <;> simp [hkey]

theorem filter_eq_of_perm {α : Type} {xs ys : List α} {p : α → Bool} (hperm : xs.Perm ys)
    (h : (xs.filter p).length ≤ 1) : ys.filter p = xs.filter p := by
  have hfilter := hperm.filter p
  rcases Nat.le_one_iff_eq_zero_or_eq_one.mp h with hnone | hone
  · rw [List.eq_nil_of_length_eq_zero hnone] at hfilter ⊢
    exact hfilter.nil_eq.symm
  · obtain ⟨x, hx⟩ := List.length_eq_one_iff.mp hone
    rw [hx] at hfilter ⊢
    exact (List.singleton_perm.mp hfilter).symm

theorem filter_of_known {names : List String} (hname : name ∈ names) :
    (members.filter fun m => names.contains m.1).filter (·.1 == name) = members.filter (·.1 == name) := by
  rw [List.filter_filter]
  refine List.filter_congr fun entry _ => ?_
  by_cases hentry : entry.1 = name
  · simp [hentry, hname]
  · simp [hentry]

end Entries

section Listed

variable {names : List String} {items : List Datum} {name : String}

/-- The members up to a place take their names from the list, and the rest does not depend on what stands
there. -/
theorem exists_zip_middle {before after : List Datum} (hname : names[before.length]? = some name) :
    ∃ rest : List String, ∀ d, names.zip (before ++ d :: after) =
      names.zip before ++ (name, d) :: rest.zip after := by
  induction before generalizing names with
  | nil =>
      obtain ⟨rest, rfl⟩ : ∃ rest, names = name :: rest := by
        cases names with
        | nil => cases hname
        | cons key rest => exact ⟨rest, by rw [Option.some.inj hname]⟩
      exact ⟨rest, fun d => rfl⟩
  | cons item before ih =>
      cases names with
      | nil => cases hname
      | cons key names =>
          obtain ⟨rest, hrest⟩ := ih hname
          exact ⟨rest, fun d => congrArg ((key, item) :: ·) (hrest d)⟩

theorem exists_lookup_middle {before : List Datum} (hname : names[before.length]? = some name)
    (after : List Datum) :
    ∃ rest : List String, ∀ d other, (names.zip (before ++ d :: after)).lookup other =
      ((names.zip before).lookup other).or (if other = name then some d else (rest.zip after).lookup other) := by
  obtain ⟨rest, hrest⟩ := exists_zip_middle hname
  refine ⟨rest, fun d other => ?_⟩
  rw [hrest, List.lookup_append]
  split
  · rename_i heq
    rw [heq, List.lookup_cons_self]
  · rename_i hne
    rw [List.lookup_cons, beq_eq_false_iff_ne.mpr hne]

theorem exists_lookup_of_forall₂ {R : String → Datum → Prop} (h : List.Forall₂ R names items)
    (hname : name ∈ names) : ∃ d, (names.zip items).lookup name = some d ∧ R name d := by
  induction h with
  | nil => cases hname
  | @cons key d names items hR _ ih =>
      by_cases hkey : name = key
      · exact ⟨d, by simp [hkey], hkey ▸ hR⟩
      · have hkey' : (name == key) = false := beq_eq_false_iff_ne.mpr hkey
        simpa [List.lookup_cons, hkey'] using ih ((List.mem_cons.mp hname).resolve_left hkey)

end Listed

/-! ### Structures -/

section Structures

variable {names : List String} {member : String → Shape} {d d' : Datum} {get : String → Option Datum}

theorem structure?_table_eq_some_iff {members : List (String × Datum)} :
    Datum.structure? .json names (.table members) = some get ↔
      (∀ name ∈ names, (members.filter (·.1 == name)).length ≤ 1) ∧
        ∀ name, members.lookup name = get name := by
  simp [Datum.structure?, funext_iff]

theorem structure?_list_eq_some_iff {items : List Datum} :
    Datum.structure? .json names (.list items) = some get ↔
      items.length ≤ names.length ∧ ∀ name, (names.zip items).lookup name = get name := by
  simp [Datum.structure?, DataFormat.json, funext_iff]

theorem exists_structure?_of_filter {members members' : List (String × Datum)}
    (hfilter : ∀ name ∈ names, members'.filter (·.1 == name) = members.filter (·.1 == name))
    (hget : Datum.structure? .json names (.table members) = some get) :
    ∃ get', Datum.structure? .json names (.table members') = some get' ∧
      ∀ name ∈ names, RewritesMember (member name) (get name) (get' name) := by
  obtain ⟨hunique, hget⟩ := structure?_table_eq_some_iff.mp hget
  refine ⟨_, structure?_table_eq_some_iff.mpr ⟨fun name hname => ?_, fun _ => rfl⟩, fun name hname => ?_⟩
  · rw [hfilter name hname]
    exact hunique name hname
  · rw [← hget, lookup_eq_filter, lookup_eq_filter, hfilter name hname]
    exact .same _

/-- The only member under a name is replaced or left out. -/
theorem exists_structure?_replaced {before after : List (String × Datum)} {name : String} {x : Option Datum}
    (hname : name ∈ names) (hx : RewritesMember (member name) (some d) x)
    (hget : Datum.structure? .json names (.table (before ++ (name, d) :: after)) = some get) :
    ∃ get', Datum.structure? .json names (.table (before ++ ((x.map (name, ·)).toList ++ after))) = some get' ∧
      ∀ name ∈ names, RewritesMember (member name) (get name) (get' name) := by
  obtain ⟨hunique, hget⟩ := structure?_table_eq_some_iff.mp hget
  have hd : get name = some d := by
    rw [← hget, lookup_eq_filter]
    have hfilter : (before ++ (name, d) :: after).filter (·.1 == name) = [(name, d)] :=
      (filter_replaced (hunique name hname) (some d)).trans (if_pos rfl)
    rw [hfilter]
    rfl
  refine ⟨_, structure?_table_eq_some_iff.mpr ⟨fun other hother => ?_, fun _ => rfl⟩, fun other hother => ?_⟩
  · rw [filter_replaced (hunique name hname)]
    split
    · cases x <;> simp
    · exact hunique other hother
  · rw [lookup_eq_filter, filter_replaced (hunique name hname)]
    split
    · subst other
      rw [hd]
      cases x <;> exact hx
    · rw [← lookup_eq_filter, hget]
      exact .same _

theorem exists_structure?_shortened {items : List Datum} {name : String}
    (hname : names[items.length]? = some name) (hd : (member name).IsDefault d)
    (hget : Datum.structure? .json names (.list (items ++ [d])) = some get) :
    ∃ get', Datum.structure? .json names (.list items) = some get' ∧
      ∀ name ∈ names, RewritesMember (member name) (get name) (get' name) := by
  obtain ⟨hlength, hget⟩ := structure?_list_eq_some_iff.mp hget
  obtain ⟨rest, hlookup⟩ := exists_lookup_middle hname []
  rw [List.length_append] at hlength
  refine ⟨_, structure?_list_eq_some_iff.mpr ⟨by omega, fun _ => rfl⟩, fun other _ => ?_⟩
  rw [← hget, hlookup d]
  cases (names.zip items).lookup other with
  | some d => exact .same _
  | none =>
      rw [Option.none_or]
      split
      · subst other
        exact .dropped hd
      · rw [List.zip_nil_right]
        exact .same _

theorem exists_structure?_inListed {before after : List Datum} {name : String}
    (hname : names[before.length]? = some name) (hd : Rewrites (member name) d d')
    (hget : Datum.structure? .json names (.list (before ++ d :: after)) = some get) :
    ∃ get', Datum.structure? .json names (.list (before ++ d' :: after)) = some get' ∧
      ∀ name ∈ names, RewritesMember (member name) (get name) (get' name) := by
  obtain ⟨hlength, hget⟩ := structure?_list_eq_some_iff.mp hget
  obtain ⟨rest, hlookup⟩ := exists_lookup_middle hname after
  refine ⟨_, structure?_list_eq_some_iff.mpr ⟨by simpa using hlength, fun _ => rfl⟩, fun other _ => ?_⟩
  rw [← hget, hlookup d, hlookup d']
  cases (names.zip before).lookup other with
  | some d => exact .same _
  | none =>
      rw [Option.none_or, Option.none_or]
      split
      · subst other
        exact .changed hd
      · exact .same _

/-- A structure written in another way has the same members but for what becomes of each. -/
theorem exists_structure?_of_rewrites (h : Rewrites (.record names member) d d')
    (hget : d.structure? .json names = some get) :
    ∃ get', d'.structure? .json names = some get' ∧
      ∀ name ∈ names, RewritesMember (member name) (get name) (get' name) := by
  cases h with
  | reordered h =>
      obtain ⟨hunique, -⟩ := structure?_table_eq_some_iff.mp hget
      exact exists_structure?_of_filter (fun name hname => filter_eq_of_perm h (hunique name hname)) hget
  | unknown h =>
      refine exists_structure?_of_filter (fun name hname => ?_) hget
      rw [← filter_of_known hname, ← h, filter_of_known hname]
  | dropped hname hdefault => exact exists_structure?_replaced hname (.dropped hdefault) hget
  | inMember hname h => exact exists_structure?_replaced hname (.changed h) hget
  | listed h =>
      obtain ⟨-, hget⟩ := structure?_table_eq_some_iff.mp hget
      have hlength := Nat.le_of_eq h.length_eq.symm
      refine ⟨_, structure?_list_eq_some_iff.mpr ⟨hlength, fun _ => rfl⟩, fun name hname => ?_⟩
      obtain ⟨d, hd, hlookup | ⟨hlookup, hdefault⟩⟩ := exists_lookup_of_forall₂ h hname
      · rw [← hget, hlookup, hd]
        exact .same _
      · rw [← hget, hlookup, hd]
        exact .filled hdefault
  | shortened hname hdefault => exact exists_structure?_shortened hname hdefault hget
  | inListed hname h => exact exists_structure?_inListed hname h hget

/-- The default of a structure is like a structure without members, with some filled in. -/
theorem exists_structure?_of_isDefault (h : (Shape.record names member).IsDefault d) :
    ∃ get, d.structure? .json names = some get ∧
      ∀ name ∈ names, RewritesMember (member name) none (get name) := by
  cases d with
  | table members =>
      obtain ⟨hunique, hdefault⟩ := h
      refine ⟨_, structure?_table_eq_some_iff.mpr ⟨hunique, fun _ => rfl⟩, fun name hname => ?_⟩
      cases hlookup : members.lookup name with
      | none => exact .same none
      | some d => exact .filled (hdefault (name, d) (mem_of_lookup hlookup) hname)
  | list items =>
      obtain ⟨hlength, hdefault⟩ := h
      refine ⟨_, structure?_list_eq_some_iff.mpr ⟨hlength, fun _ => rfl⟩, fun name hname => ?_⟩
      cases hlookup : (names.zip items).lookup name with
      | none => exact .same none
      | some d => exact .filled (hdefault (name, d) (mem_of_lookup hlookup))
  | _ => exact h.elim

end Structures

/-! ### Readers -/

/-- What one reading gives is what the other gives. -/
def Keeps {α : Type} (x y : Option α) : Prop := ∀ a, x = some a → y = some a

namespace Keeps

variable {α β : Type}

theorem refl (x : Option α) : Keeps x x := fun _ h => h

theorem bind {x y : Option α} {f g : α → Option β} (h : Keeps x y) (hf : ∀ a, Keeps (f a) (g a)) :
    Keeps (x >>= f) (y >>= g) := by
  intro b hb
  obtain ⟨a, ha, hb⟩ := Option.bind_eq_some_iff.mp hb
  exact Option.bind_eq_some_iff.mpr ⟨a, h a ha, hf a b hb⟩

theorem map {x y : Option α} (f : α → β) (h : Keeps x y) : Keeps (x.map f) (y.map f) := by
  intro b hb
  obtain ⟨a, ha, rfl⟩ := Option.map_eq_some_iff.mp hb
  rw [h a ha, Option.map_some]

end Keeps

/-- Values are read regardless of how they are written, and a default as a structure with no members. -/
structure ReadsAs {α : Type} (shape : Shape) (read : Datum → Option α) : Prop where
  keeps : ∀ {d d'}, Rewrites shape d d' → Keeps (read d) (read d')
  default : ∀ {d}, shape.IsDefault d → Keeps (read (.table [])) (read d)

namespace ReadsAs

variable {α : Type} {shape : Shape} {read : Datum → Option α} {x x' : Option Datum}

theorem text : ReadsAs .text Datum.text? := ⟨nofun, nofun⟩

theorem natural : ReadsAs .natural Datum.natural? := ⟨nofun, nofun⟩

theorem boolean : ReadsAs .boolean Datum.boolean? := ⟨nofun, fun _ => nofun⟩

theorem optional (h : ReadsAs shape read) (hx : RewritesMember (.optional shape) x x') :
    Keeps (Datum.optional? read x) (Datum.optional? read x') := by
  cases hx with
  | same => exact .refl _
  | changed hd =>
      cases hd with
      | inValue hd =>
          rw [Datum.optional?_of_ne_null hd.ne_null.1, Datum.optional?_of_ne_null hd.ne_null.2]
          exact (h.keeps hd).map some
  | dropped hd => cases hd; exact .refl _
  | filled hd => cases hd; exact .refl _

theorem list (h : ReadsAs shape read) (hx : RewritesMember (.list shape) x x') :
    Keeps (Datum.list? read x) (Datum.list? read x') := by
  cases hx with
  | same => exact .refl _
  | changed hd =>
      cases hd with
      | @inItem _ before after d d' hd =>
          show Keeps ((before ++ d :: after).mapM read) ((before ++ d' :: after).mapM read)
          rw [List.mapM_append, List.mapM_append, List.mapM_cons, List.mapM_cons]
          exact (Keeps.refl _).bind fun _ => ((h.keeps hd).bind fun _ => .refl _).bind fun _ => .refl _
  | dropped hd => cases hd; exact .refl _
  | filled hd => cases hd; exact .refl _

theorem flag (hx : RewritesMember .boolean x x') : Keeps (Datum.flag? x) (Datum.flag? x') := by
  cases hx with
  | same => exact .refl _
  | changed hd => cases hd
  | dropped hd => cases hd; exact .refl _
  | filled hd => cases hd; exact .refl _

/-- A structure is read regardless of how it is written if its members are. -/
theorem ofMembers {members : List (String × Shape)} {names : List String}
    {build : (String → Option Datum) → Option α} (hnames : members.map (·.1) = names) (hnodup : names.Nodup)
    (hbuild : ∀ get get', (∀ entry ∈ members, RewritesMember entry.2 (get entry.1) (get' entry.1)) →
      Keeps (build get) (build get')) :
    ReadsAs (.ofMembers members) fun d => d.structure? .json names >>= build := by
  subst hnames
  -- the shape finds its members by name, of which each has one
  have hbuild' : ∀ get get', (∀ name ∈ members.map (·.1),
      RewritesMember ((members.lookup name).getD .text) (get name) (get' name)) →
      Keeps (build get) (build get') := by
    refine fun get get' h => hbuild get get' fun entry hentry => ?_
    have hmember := h entry.1 (List.mem_map_of_mem hentry)
    rwa [lookup_of_mem hnodup hentry] at hmember
  refine ⟨fun h a ha => ?_, fun h a ha => ?_⟩
  · obtain ⟨get, hget, ha⟩ := Option.bind_eq_some_iff.mp ha
    obtain ⟨get', hget', hmembers⟩ := exists_structure?_of_rewrites h hget
    exact Option.bind_eq_some_iff.mpr ⟨get', hget', hbuild' get get' hmembers a ha⟩
  · obtain ⟨get, hget, hmembers⟩ := exists_structure?_of_isDefault h
    obtain ⟨empty, hempty, ha⟩ := Option.bind_eq_some_iff.mp ha
    obtain rfl : (fun _ => none) = empty := funext (structure?_table_eq_some_iff.mp hempty).2
    exact Option.bind_eq_some_iff.mpr ⟨get, hget, hbuild' _ get hmembers a ha⟩

end ReadsAs

/-! ### Descriptions -/

namespace Description

def TypeUse.shape : Shape := .ofMembers [("name", .optional .text), ("c-type", .optional .text)]

theorem TypeUse.readsAs : ReadsAs TypeUse.shape (TypeUse.ofDatum? .json) := by
  refine .ofMembers rfl (by decide) fun get get' h => ?_
  simp only [List.forall_mem_cons] at h
  obtain ⟨hname, hctype, -⟩ := h
  refine (ReadsAs.text.optional hname).bind fun _ => ?_
  exact (ReadsAs.text.optional hctype).bind fun _ => .refl _

def ArrayUse.shape : Shape :=
  .ofMembers [("length", .optional .natural), ("c-type", .optional .text), ("type", .optional TypeUse.shape)]

theorem ArrayUse.readsAs : ReadsAs ArrayUse.shape (ArrayUse.ofDatum? .json) := by
  refine .ofMembers rfl (by decide) fun get get' h => ?_
  simp only [List.forall_mem_cons] at h
  obtain ⟨hlength, hctype, helement, -⟩ := h
  refine (ReadsAs.natural.optional hlength).bind fun _ => ?_
  refine (ReadsAs.text.optional hctype).bind fun _ => ?_
  exact (TypeUse.readsAs.optional helement).bind fun _ => .refl _

def Alias.shape : Shape :=
  .ofMembers [("name", .optional .text), ("c-type", .optional .text), ("type", .optional TypeUse.shape)]

theorem Alias.readsAs : ReadsAs Alias.shape (Alias.ofDatum? .json) := by
  refine .ofMembers rfl (by decide) fun get get' h => ?_
  simp only [List.forall_mem_cons] at h
  obtain ⟨hname, hctype, htarget, -⟩ := h
  refine (ReadsAs.text.optional hname).bind fun _ => ?_
  refine (ReadsAs.text.optional hctype).bind fun _ => ?_
  exact (TypeUse.readsAs.optional htarget).bind fun _ => .refl _

def Parameter.shape : Shape :=
  .ofMembers [("name", .optional .text), ("type", .optional TypeUse.shape), ("array", .optional ArrayUse.shape),
    ("varargs", .boolean), ("direction", .optional .text), ("transfer-ownership", .optional .text),
    ("nullable", .boolean), ("allow-none", .boolean), ("caller-allocates", .boolean),
    ("closure", .optional .natural)]

theorem Parameter.readsAs : ReadsAs Parameter.shape (Parameter.ofDatum? .json) := by
  refine .ofMembers rfl (by decide) fun get get' h => ?_
  simp only [List.forall_mem_cons] at h
  obtain ⟨hname, htype, harray, hvarargs, hdirection, htransferOwnership, hnullable, hallowNone,
    hcallerAllocates, hclosure, -⟩ := h
  refine (ReadsAs.text.optional hname).bind fun _ => ?_
  refine (TypeUse.readsAs.optional htype).bind fun _ => ?_
  refine (ArrayUse.readsAs.optional harray).bind fun _ => ?_
  refine (ReadsAs.flag hvarargs).bind fun _ => ?_
  refine (ReadsAs.text.optional hdirection).bind fun _ => ?_
  refine (ReadsAs.text.optional htransferOwnership).bind fun _ => ?_
  refine (ReadsAs.flag hnullable).bind fun _ => ?_
  refine (ReadsAs.flag hallowNone).bind fun _ => ?_
  refine (ReadsAs.flag hcallerAllocates).bind fun _ => ?_
  exact (ReadsAs.natural.optional hclosure).bind fun _ => .refl _

def ReturnValue.shape : Shape :=
  .ofMembers [("type", .optional TypeUse.shape), ("array", .optional ArrayUse.shape),
    ("transfer-ownership", .optional .text), ("nullable", .boolean)]

theorem ReturnValue.readsAs : ReadsAs ReturnValue.shape (ReturnValue.ofDatum? .json) := by
  refine .ofMembers rfl (by decide) fun get get' h => ?_
  simp only [List.forall_mem_cons] at h
  obtain ⟨htype, harray, htransferOwnership, hnullable, -⟩ := h
  refine (TypeUse.readsAs.optional htype).bind fun _ => ?_
  refine (ArrayUse.readsAs.optional harray).bind fun _ => ?_
  refine (ReadsAs.text.optional htransferOwnership).bind fun _ => ?_
  exact (ReadsAs.flag hnullable).bind fun _ => .refl _

def Callable.shape : Shape :=
  .ofMembers [("name", .optional .text), ("c-identifier", .optional .text),
    ("return-value", .optional ReturnValue.shape), ("instance-parameter", .optional Parameter.shape),
    ("parameters", .list Parameter.shape), ("throws", .boolean), ("introspectable", .optional .boolean)]

theorem Callable.readsAs : ReadsAs Callable.shape (Callable.ofDatum? .json) := by
  refine .ofMembers rfl (by decide) fun get get' h => ?_
  simp only [List.forall_mem_cons] at h
  obtain ⟨hname, hcIdentifier, hreturnValue, hinstanceParameter, hparameters, hthrows, hintrospectable, -⟩ := h
  refine (ReadsAs.text.optional hname).bind fun _ => ?_
  refine (ReadsAs.text.optional hcIdentifier).bind fun _ => ?_
  refine (ReturnValue.readsAs.optional hreturnValue).bind fun _ => ?_
  refine (Parameter.readsAs.optional hinstanceParameter).bind fun _ => ?_
  refine (Parameter.readsAs.list hparameters).bind fun _ => ?_
  refine (ReadsAs.flag hthrows).bind fun _ => ?_
  exact (ReadsAs.boolean.optional hintrospectable).bind fun _ => .refl _

def Callback.shape : Shape :=
  .ofMembers [("name", .optional .text), ("c-type", .optional .text),
    ("return-value", .optional ReturnValue.shape), ("parameters", .list Parameter.shape), ("throws", .boolean)]

theorem Callback.readsAs : ReadsAs Callback.shape (Callback.ofDatum? .json) := by
  refine .ofMembers rfl (by decide) fun get get' h => ?_
  simp only [List.forall_mem_cons] at h
  obtain ⟨hname, hctype, hreturnValue, hparameters, hthrows, -⟩ := h
  refine (ReadsAs.text.optional hname).bind fun _ => ?_
  refine (ReadsAs.text.optional hctype).bind fun _ => ?_
  refine (ReturnValue.readsAs.optional hreturnValue).bind fun _ => ?_
  refine (Parameter.readsAs.list hparameters).bind fun _ => ?_
  exact (ReadsAs.flag hthrows).bind fun _ => .refl _

def Field.shape : Shape :=
  .ofMembers [("name", .optional .text), ("type", .optional TypeUse.shape), ("array", .optional ArrayUse.shape),
    ("callback", .optional Callback.shape), ("private", .boolean)]

theorem Field.readsAs : ReadsAs Field.shape (Field.ofDatum? .json) := by
  refine .ofMembers rfl (by decide) fun get get' h => ?_
  simp only [List.forall_mem_cons] at h
  obtain ⟨hname, htype, harray, hcallback, hisPrivate, -⟩ := h
  refine (ReadsAs.text.optional hname).bind fun _ => ?_
  refine (TypeUse.readsAs.optional htype).bind fun _ => ?_
  refine (ArrayUse.readsAs.optional harray).bind fun _ => ?_
  refine (Callback.readsAs.optional hcallback).bind fun _ => ?_
  exact (ReadsAs.flag hisPrivate).bind fun _ => .refl _

def Signal.shape : Shape :=
  .ofMembers [("name", .optional .text), ("return-value", .optional ReturnValue.shape),
    ("parameters", .list Parameter.shape)]

theorem Signal.readsAs : ReadsAs Signal.shape (Signal.ofDatum? .json) := by
  refine .ofMembers rfl (by decide) fun get get' h => ?_
  simp only [List.forall_mem_cons] at h
  obtain ⟨hname, hreturnValue, hparameters, -⟩ := h
  refine (ReadsAs.text.optional hname).bind fun _ => ?_
  refine (ReturnValue.readsAs.optional hreturnValue).bind fun _ => ?_
  exact (Parameter.readsAs.list hparameters).bind fun _ => .refl _

def Class.shape : Shape :=
  .ofMembers [("name", .optional .text), ("c-type", .optional .text), ("parent", .optional .text),
    ("implements", .list .text), ("constructors", .list Callable.shape), ("methods", .list Callable.shape),
    ("functions", .list Callable.shape), ("fields", .list Field.shape), ("signals", .list Signal.shape)]

theorem Class.readsAs : ReadsAs Class.shape (Class.ofDatum? .json) := by
  refine .ofMembers rfl (by decide) fun get get' h => ?_
  simp only [List.forall_mem_cons] at h
  obtain ⟨hname, hctype, hparent, himplements, hconstructors, hmethods, hfunctions, hfields, hsignals, -⟩ := h
  refine (ReadsAs.text.optional hname).bind fun _ => ?_
  refine (ReadsAs.text.optional hctype).bind fun _ => ?_
  refine (ReadsAs.text.optional hparent).bind fun _ => ?_
  refine (ReadsAs.text.list himplements).bind fun _ => ?_
  refine (Callable.readsAs.list hconstructors).bind fun _ => ?_
  refine (Callable.readsAs.list hmethods).bind fun _ => ?_
  refine (Callable.readsAs.list hfunctions).bind fun _ => ?_
  refine (Field.readsAs.list hfields).bind fun _ => ?_
  exact (Signal.readsAs.list hsignals).bind fun _ => .refl _

def Interface.shape : Shape :=
  .ofMembers [("name", .optional .text), ("c-type", .optional .text), ("constructors", .list Callable.shape),
    ("methods", .list Callable.shape), ("functions", .list Callable.shape), ("signals", .list Signal.shape)]

theorem Interface.readsAs : ReadsAs Interface.shape (Interface.ofDatum? .json) := by
  refine .ofMembers rfl (by decide) fun get get' h => ?_
  simp only [List.forall_mem_cons] at h
  obtain ⟨hname, hctype, hconstructors, hmethods, hfunctions, hsignals, -⟩ := h
  refine (ReadsAs.text.optional hname).bind fun _ => ?_
  refine (ReadsAs.text.optional hctype).bind fun _ => ?_
  refine (Callable.readsAs.list hconstructors).bind fun _ => ?_
  refine (Callable.readsAs.list hmethods).bind fun _ => ?_
  refine (Callable.readsAs.list hfunctions).bind fun _ => ?_
  exact (Signal.readsAs.list hsignals).bind fun _ => .refl _

def Record.shape : Shape :=
  .ofMembers [("name", .optional .text), ("c-type", .optional .text), ("disguised", .boolean),
    ("glib-type-struct-for", .optional .text), ("get-type", .optional .text),
    ("constructors", .list Callable.shape), ("methods", .list Callable.shape),
    ("functions", .list Callable.shape), ("fields", .list Field.shape)]

theorem Record.readsAs : ReadsAs Record.shape (Record.ofDatum? .json) := by
  refine .ofMembers rfl (by decide) fun get get' h => ?_
  simp only [List.forall_mem_cons] at h
  obtain ⟨hname, hctype, hdisguised, htypeStructFor, hgetType, hconstructors, hmethods, hfunctions, hfields,
    -⟩ := h
  refine (ReadsAs.text.optional hname).bind fun _ => ?_
  refine (ReadsAs.text.optional hctype).bind fun _ => ?_
  refine (ReadsAs.flag hdisguised).bind fun _ => ?_
  refine (ReadsAs.text.optional htypeStructFor).bind fun _ => ?_
  refine (ReadsAs.text.optional hgetType).bind fun _ => ?_
  refine (Callable.readsAs.list hconstructors).bind fun _ => ?_
  refine (Callable.readsAs.list hmethods).bind fun _ => ?_
  refine (Callable.readsAs.list hfunctions).bind fun _ => ?_
  exact (Field.readsAs.list hfields).bind fun _ => .refl _

def Union.shape : Shape :=
  .ofMembers [("name", .optional .text), ("c-type", .optional .text), ("constructors", .list Callable.shape),
    ("methods", .list Callable.shape), ("functions", .list Callable.shape), ("fields", .list Field.shape)]

theorem Union.readsAs : ReadsAs Union.shape (Union.ofDatum? .json) := by
  refine .ofMembers rfl (by decide) fun get get' h => ?_
  simp only [List.forall_mem_cons] at h
  obtain ⟨hname, hctype, hconstructors, hmethods, hfunctions, hfields, -⟩ := h
  refine (ReadsAs.text.optional hname).bind fun _ => ?_
  refine (ReadsAs.text.optional hctype).bind fun _ => ?_
  refine (Callable.readsAs.list hconstructors).bind fun _ => ?_
  refine (Callable.readsAs.list hmethods).bind fun _ => ?_
  refine (Callable.readsAs.list hfunctions).bind fun _ => ?_
  exact (Field.readsAs.list hfields).bind fun _ => .refl _

def Member.shape : Shape :=
  .ofMembers [("name", .optional .text), ("c-identifier", .optional .text), ("value", .optional .text)]

theorem Member.readsAs : ReadsAs Member.shape (Member.ofDatum? .json) := by
  refine .ofMembers rfl (by decide) fun get get' h => ?_
  simp only [List.forall_mem_cons] at h
  obtain ⟨hname, hcIdentifier, hvalue, -⟩ := h
  refine (ReadsAs.text.optional hname).bind fun _ => ?_
  refine (ReadsAs.text.optional hcIdentifier).bind fun _ => ?_
  exact (ReadsAs.text.optional hvalue).bind fun _ => .refl _

def Enumeration.shape : Shape :=
  .ofMembers [("name", .optional .text), ("c-type", .optional .text), ("members", .list Member.shape),
    ("functions", .list Callable.shape)]

theorem Enumeration.readsAs : ReadsAs Enumeration.shape (Enumeration.ofDatum? .json) := by
  refine .ofMembers rfl (by decide) fun get get' h => ?_
  simp only [List.forall_mem_cons] at h
  obtain ⟨hname, hctype, hmembers, hfunctions, -⟩ := h
  refine (ReadsAs.text.optional hname).bind fun _ => ?_
  refine (ReadsAs.text.optional hctype).bind fun _ => ?_
  refine (Member.readsAs.list hmembers).bind fun _ => ?_
  exact (Callable.readsAs.list hfunctions).bind fun _ => .refl _

def Constant.shape : Shape :=
  .ofMembers [("name", .optional .text), ("c-identifier", .optional .text), ("value", .optional .text),
    ("type", .optional TypeUse.shape)]

theorem Constant.readsAs : ReadsAs Constant.shape (Constant.ofDatum? .json) := by
  refine .ofMembers rfl (by decide) fun get get' h => ?_
  simp only [List.forall_mem_cons] at h
  obtain ⟨hname, hcIdentifier, hvalue, htype, -⟩ := h
  refine (ReadsAs.text.optional hname).bind fun _ => ?_
  refine (ReadsAs.text.optional hcIdentifier).bind fun _ => ?_
  refine (ReadsAs.text.optional hvalue).bind fun _ => ?_
  exact (TypeUse.readsAs.optional htype).bind fun _ => .refl _

def Namespace.shape : Shape :=
  .ofMembers [("name", .optional .text), ("version", .optional .text), ("shared-library", .optional .text),
    ("aliases", .list Alias.shape), ("classes", .list Class.shape), ("interfaces", .list Interface.shape),
    ("records", .list Record.shape), ("unions", .list Union.shape), ("enumerations", .list Enumeration.shape),
    ("bitfields", .list Enumeration.shape), ("callbacks", .list Callback.shape),
    ("functions", .list Callable.shape), ("constants", .list Constant.shape)]

theorem Namespace.readsAs : ReadsAs Namespace.shape (Namespace.ofDatum? .json) := by
  refine .ofMembers rfl (by decide) fun get get' h => ?_
  simp only [List.forall_mem_cons] at h
  obtain ⟨hname, hversion, hsharedLibrary, haliases, hclasses, hinterfaces, hrecords, hunions, henumerations,
    hbitfields, hcallbacks, hfunctions, hconstants, -⟩ := h
  refine (ReadsAs.text.optional hname).bind fun _ => ?_
  refine (ReadsAs.text.optional hversion).bind fun _ => ?_
  refine (ReadsAs.text.optional hsharedLibrary).bind fun _ => ?_
  refine (Alias.readsAs.list haliases).bind fun _ => ?_
  refine (Class.readsAs.list hclasses).bind fun _ => ?_
  refine (Interface.readsAs.list hinterfaces).bind fun _ => ?_
  refine (Record.readsAs.list hrecords).bind fun _ => ?_
  refine (Union.readsAs.list hunions).bind fun _ => ?_
  refine (Enumeration.readsAs.list henumerations).bind fun _ => ?_
  refine (Enumeration.readsAs.list hbitfields).bind fun _ => ?_
  refine (Callback.readsAs.list hcallbacks).bind fun _ => ?_
  refine (Callable.readsAs.list hfunctions).bind fun _ => ?_
  exact (Constant.readsAs.list hconstants).bind fun _ => .refl _

def Include.shape : Shape := .ofMembers [("name", .optional .text), ("version", .optional .text)]

theorem Include.readsAs : ReadsAs Include.shape (Include.ofDatum? .json) := by
  refine .ofMembers rfl (by decide) fun get get' h => ?_
  simp only [List.forall_mem_cons] at h
  obtain ⟨hname, hversion, -⟩ := h
  refine (ReadsAs.text.optional hname).bind fun _ => ?_
  exact (ReadsAs.text.optional hversion).bind fun _ => .refl _

end Description

def Description.shape : Shape :=
  .ofMembers [("includes", .list Include.shape), ("namespace", Namespace.shape)]

/-- The namespace of a description is the default one when absent. -/
theorem Description.keeps_namespace {x x' : Option Datum} : RewritesMember Namespace.shape x x' →
    Keeps (match x with | none => some {} | some d => Namespace.ofDatum? .json d)
      (match x' with | none => some {} | some d => Namespace.ofDatum? .json d) := by
  have hdefault : ∀ {d}, Namespace.shape.IsDefault d → Namespace.ofDatum? .json d = some {} :=
    fun h => Namespace.readsAs.default h {} rfl
  intro hx
  cases hx with
  | same => exact .refl _
  | changed hd => exact Namespace.readsAs.keeps hd
  | dropped hd =>
      dsimp only
      rw [hdefault hd]
      exact .refl _
  | filled hd =>
      dsimp only
      rw [hdefault hd]
      exact .refl _

theorem Description.readsAs : ReadsAs Description.shape (Description.ofDatum? .json) := by
  refine .ofMembers rfl (by decide) fun get get' h => ?_
  simp only [List.forall_mem_cons] at h
  obtain ⟨hincludes, hnamespace, -⟩ := h
  refine (Include.readsAs.list hincludes).bind fun _ => ?_
  exact (Description.keeps_namespace hnamespace).bind fun _ => .refl _

/-- A description is read from what it is written as, and whatever it is read from may be written in other ways
without a change. -/
theorem Description.legible :
    (∀ d : Description, d.toDatum.InWords → Description.ofDatum? .json d.toDatum = some d) ∧
      ∀ value value' d, Description.ofDatum? .json value = some d →
        Relation.ReflTransGen (Rewrites Description.shape) value value' →
        Description.ofDatum? .json value' = some d := by
  refine ⟨fun d h => (Description.restores .json d h).2, fun value value' d hvalue h => ?_⟩
  induction h with
  | refl => exact hvalue
  | tail _ hstep ih => exact Description.readsAs.keeps hstep d ih

namespace Sample

def countedDescription : Description where
  includes := [{ name := some "GLib" }]
  namespaceInfo := {
    name := some "Gio"
    callbacks := [{ name := some "Fill", parameters := [{ array := some { length := some 1 } }] }] }

def countedNamespace (unknown : List (String × Datum)) : Datum :=
  .table ([("callbacks", .list [.table [
    ("parameters", .list [.table [("array", .table [("length", .integer 1)])]]),
    ("name", .text "Fill")]])] ++ unknown ++ [("name", .text "Gio")])

/-- The description with its members in another order, without those that are absent and with a comment. -/
def counted : Datum :=
  .table [("namespace", countedNamespace [("comment", .foreign)]),
    ("includes", .list [.table [("name", .text "GLib")]])]

/-- The description and what it includes as lists. -/
def countedItems : Datum := .list [.list [.list [.text "GLib"]], countedNamespace []]

theorem counted_inWords : countedDescription.toDatum.InWords := by
  repeat' first
    | exact List.forall_mem_nil _
    | refine List.forall_mem_cons.mpr ⟨?_, ?_⟩
    | constructor

theorem counted_rewrites : Relation.ReflTransGen (Rewrites Description.shape) counted countedItems := by
  have hcomment : Rewrites Description.Namespace.shape (countedNamespace [("comment", .foreign)])
      (countedNamespace []) := .unknown rfl
  have hlisted : Rewrites Description.Include.shape (.table [("name", .text "GLib")])
      (.list [.text "GLib", .null]) := .listed (.cons (.inl rfl) (.cons (.inr ⟨rfl, rfl⟩) .nil))
  have hshortened : Rewrites Description.Include.shape (.list [.text "GLib", .null]) (.list [.text "GLib"]) :=
    @Rewrites.shortened _ _ [.text "GLib"] "version" .null rfl rfl
  have inNamespace : ∀ {d d'} after, Rewrites Description.Namespace.shape d d' →
      Rewrites Description.shape (.table (("namespace", d) :: after)) (.table (("namespace", d') :: after)) :=
    fun after h => @Rewrites.inMember _ _ [] after "namespace" _ _ (by decide) h
  have inIncludes : ∀ {d d'} before, Rewrites Description.Include.shape d d' → Rewrites Description.shape
      (.table (before ++ [("includes", .list [d])])) (.table (before ++ [("includes", .list [d'])])) :=
    fun before h => @Rewrites.inMember _ _ before [] "includes" _ _ (by decide)
      (@Rewrites.inItem Description.Include.shape [] [] _ _ h)
  refine .head (inNamespace _ hcomment) ?_
  refine .head (inIncludes [_] hlisted) ?_
  refine .head (inIncludes [_] hshortened) ?_
  exact .single (.listed (.cons (.inl rfl) (.cons (.inl rfl) .nil)))

end Sample

/-- A description restored from what it is written as, and read from a list in which it has no defaults. -/
theorem Description.legible_counted :
    Description.ofDatum? .json Sample.countedDescription.toDatum = some Sample.countedDescription ∧
      Description.ofDatum? .json Sample.countedItems = some Sample.countedDescription :=
  ⟨Description.legible.1 _ Sample.counted_inWords,
    Description.legible.2 Sample.counted _ _ (by rfl) Sample.counted_rewrites⟩

end Interop
