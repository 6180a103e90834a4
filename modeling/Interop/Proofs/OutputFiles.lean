import Interop.Proofs.FileWriting
import Interop.Proofs.Mandatory
import Interop.Proofs.NamespaceDocuments

/-! The files of a report. Each namespace is written under its name and version in one word, which another
namespace may share: then their paths are the same, and the document of the last one is what is left. Main
statement: `report_filed`. -/

namespace Interop

/-! ### Names of files -/

namespace NamespaceKey

variable {a b : NamespaceKey}

/-- The name of the second key takes the version of the first one up to some hyphen. -/
def Overlaps (a b : NamespaceKey) : Prop :=
  ∃ part, b.name = a.name ++ "-" ++ part ∧ a.version = part ++ "-" ++ b.version

theorem overlaps_of_append {front : List Char} (hname : b.name.toList = a.name.toList ++ '-' :: front)
    (hversion : a.version.toList = front ++ '-' :: b.version.toList) : a.Overlaps b := by
  refine ⟨String.ofList front, String.toList_injective ?_, String.toList_injective ?_⟩
  · simp [hname]
  · simp [hversion]

theorem Overlaps.canonicalName_eq (h : a.Overlaps b) : a.canonicalName = b.canonicalName := by
  obtain ⟨part, hname, hversion⟩ := h
  rw [canonicalName, canonicalName, hname, hversion]
  simp only [String.append_assoc]

/-- A word that is split at two hyphens is split at the same one, or the first part of one reaches further. -/
theorem eq_or_overlaps {front : List Char} (hname : b.name.toList = a.name.toList ++ front)
    (hversion : '-' :: a.version.toList = front ++ '-' :: b.version.toList) : a = b ∨ a.Overlaps b := by
  cases front with
  | nil =>
      left
      obtain ⟨name, version⟩ := a
      obtain ⟨name', version'⟩ := b
      rw [List.append_nil] at hname
      exact congrArg₂ mk (String.toList_injective hname.symm) (String.toList_injective (List.cons.inj hversion).2)
  | cons c front =>
      right
      rw [List.cons_append] at hversion
      obtain ⟨rfl, hback⟩ := List.cons.inj hversion
      exact overlaps_of_append hname hback

/-- Two keys are the same in one word only if they are the same or that word is split at different hyphens. -/
theorem canonicalName_eq_iff : a.canonicalName = b.canonicalName ↔ a = b ∨ a.Overlaps b ∨ b.Overlaps a := by
  constructor
  · intro h
    have hword : a.name.toList ++ '-' :: a.version.toList = b.name.toList ++ '-' :: b.version.toList := by
      simpa [canonicalName] using congrArg String.toList h
    rcases List.append_eq_append_iff.mp hword with ⟨front, hname, hversion⟩ | ⟨front, hname, hversion⟩
    · exact (eq_or_overlaps hname hversion).imp_right .inl
    · exact (eq_or_overlaps hname hversion).imp Eq.symm .inr
  · rintro (rfl | h | h)
    · rfl
    · exact h.canonicalName_eq
    · exact h.canonicalName_eq.symm

theorem mem_canonicalName (key : NamespaceKey) : '-' ∈ key.canonicalName.toList := by
  rw [canonicalName, String.toList_append, String.toList_append]
  exact List.mem_append_left _ (List.mem_append_right _ (by decide))

end NamespaceKey

/-! ### Reports -/

namespace Graph

variable {g : Graph} {m : Memo} {options : Options}

theorem repository?_of_mem_selected {ids : List RepositoryId} {id : RepositoryId} {r : Repository}
    (h : (id, r) ∈ g.selected options ids) : g.repository? id = some r := by
  obtain ⟨other, -, hother⟩ := List.mem_filterMap.mp h
  obtain ⟨found, hfound, hselects⟩ := Option.bind_eq_some_iff.mp hother
  split at hselects
  · cases hselects
    exact hfound
  · cases hselects

theorem nodup_selected {ids : List RepositoryId} (h : ids.Nodup) : (g.selected options ids).Nodup := by
  refine h.filterMap fun id other found hid hother => ?_
  have hfound : ∀ {id : RepositoryId}, found ∈ ((g.repository? id).bind fun r =>
      if options.selects r.key then some (id, r) else none) → found.1 = id := by
    intro id hid
    obtain ⟨r, -, hselects⟩ := Option.bind_eq_some_iff.mp hid
    split at hselects <;> cases hselects
    rfl
  exact (hfound hid).symm.trans (hfound hother)

end Graph

/-- A report has each namespace once. -/
theorem Obtained.nodup_keys {g : Graph} (hg : Obtained g) {options : Options} {m : Memo} {report : Report}
    (h : (g.generate options m).1.outcome = .ok report) : (report.namespaces.map (·.key)).Nodup := by
  rw [hg.eq_reportFrom h, Graph.reportFrom, Graph.reportOf, List.map_map]
  obtain ⟨history, hh, rfl⟩ := hg.exists_consistent
  refine List.Nodup.map_on ?_ (Graph.nodup_selected hh.wellFormed.nodup)
  rintro ⟨id, r⟩ hr ⟨other, r'⟩ hr' (hkey : r.key = r'.key)
  have hstanding := Graph.repository?_of_mem_selected hr
  have hfirst := (hh.indexed r.key id).mpr ⟨r, hstanding, rfl⟩
  have hsecond := (hh.indexed r.key other).mpr ⟨r', Graph.repository?_of_mem_selected hr', hkey.symm⟩
  obtain rfl := Option.some.inj (hfirst.symm.trans hsecond)
  obtain rfl := Option.some.inj (hstanding.symm.trans (Graph.repository?_of_mem_selected hr'))
  rfl

namespace Report

/-- The document of a namespace, by its file name. -/
def namespaceDocument (output : NamespaceOutput) : String × Datum :=
  (output.key.canonicalName ++ ".json", namespaceDatum output)

/-- The names of all namespaces are names of files. -/
def NamesFiles (report : Report) : Prop := ∀ output ∈ report.namespaces, '/' ∉ output.key.canonicalName.toList

instance (report : Report) : Decidable report.NamesFiles :=
  inferInstanceAs (Decidable (∀ output ∈ report.namespaces, '/' ∉ output.key.canonicalName.toList))

variable {report : Report} {folder : Path} {tree left : FileTree}

theorem mem_documents {document : String × Datum} : document ∈ report.documents ↔
    (∃ output ∈ report.namespaces, namespaceDocument output = document) ∨
      document = ("summary.json", report.summaryDatum) := by
  rw [documents, List.mem_append, List.mem_map, List.mem_singleton]
  rfl

theorem canonicalName_ne_summary (key : NamespaceKey) : key.canonicalName ++ ".json" ≠ "summary.json" := by
  intro h
  have hhyphen : '-' ∈ (key.canonicalName ++ ".json").toList := by
    rw [String.toList_append]
    exact List.mem_append_left _ key.mem_canonicalName
  rw [h] at hhyphen
  exact absurd hhyphen (by decide)

theorem isName_of_mem_documents (h : report.NamesFiles) {document : String × Datum}
    (hdocument : document ∈ report.documents) : Path.IsName document.1 := by
  rcases mem_documents.mp hdocument with ⟨output, houtput, rfl⟩ | rfl
  · have hlength : 5 ≤ (output.key.canonicalName ++ ".json").length := by
      rw [String.length_append]
      exact Nat.le_add_left 5 _
    constructor
    · dsimp only [namespaceDocument]
      rw [String.toList_append, List.mem_append, not_or]
      exact ⟨h output houtput, by decide⟩
    · refine ⟨?_, ?_, ?_⟩ <;> intro heq <;> dsimp only [namespaceDocument] at heq <;> rw [heq] at hlength <;>
        exact absurd hlength (by decide)
  · exact ⟨show '/' ∉ "summary.json".toList by decide, by dsimp only; decide⟩

/-- The names of the documents are the same only where those of the namespaces are. -/
theorem nodup_names_iff : (report.documents.map (·.1)).Nodup ↔
    (report.namespaces.map (·.key.canonicalName)).Nodup := by
  have hnames : report.documents.map (·.1) =
      ((report.namespaces.map (·.key.canonicalName)).map (· ++ ".json")).concat "summary.json" := by
    rw [documents, List.map_append, List.map_map, List.map_map, List.concat_eq_append]
    rfl
  have hfresh : "summary.json" ∉ (report.namespaces.map (·.key.canonicalName)).map (· ++ ".json") := by
    rw [List.map_map, List.mem_map]
    rintro ⟨output, -, heq⟩
    exact canonicalName_ne_summary output.key heq
  rw [hnames, List.nodup_concat, and_iff_right hfresh]
  exact List.nodup_map_iff fun name other heq => (String.append_left_inj ".json").mp heq

theorem nodup_paths_iff (h : report.NamesFiles) :
    (report.documents.map fun document => folder.join document.1).Nodup ↔
      (report.namespaces.map (·.key.canonicalName)).Nodup := by
  rw [← nodup_names_iff]
  constructor
  · intro hpaths
    exact List.Nodup.of_map folder.join (by rwa [List.map_map])
  · intro hnames
    have hpaths : ((report.documents.map (·.1)).map folder.join).Nodup := by
      refine hnames.map_on fun name hname other hother heq => ?_
      obtain ⟨document, hdocument, rfl⟩ := List.mem_map.mp hname
      obtain ⟨document', hdocument', rfl⟩ := List.mem_map.mp hother
      exact (Path.join_inj (isName_of_mem_documents h hdocument) (isName_of_mem_documents h hdocument')).mp heq
    rwa [List.map_map] at hpaths

/-- What files hold after a report was written to a folder: where paths lead to the same place, the last of
the documents. -/
structure Filed (report : Report) (folder : Path) (left : FileTree) : Prop where
  leads : ∀ document ∈ report.documents, ∃ position, left.locate (folder.join document.1) = .ok position
  readText : ∀ document ∈ report.documents, ∃ last,
    (report.documents.filter fun other =>
      left.locate (folder.join other.1) = left.locate (folder.join document.1)).getLast? = some last ∧
    left.readText (folder.join document.1) = .ok (Json.pretty 0 last.2)

theorem WritesAll.filed (h : report.WritesAll folder tree left) : report.Filed folder left := by
  obtain ⟨made, -, hwrites⟩ := h
  have hwritten := FileTree.writes_of_foldlM hwrites
  have hmem : ∀ document ∈ report.documents,
      (folder.join document.1, Json.pretty 0 document.2) ∈ writesOf folder report.documents :=
    fun document hdocument => List.mem_map_of_mem hdocument
  refine ⟨fun document hdocument => hwritten.leads _ (hmem document hdocument), fun document hdocument => ?_⟩
  obtain ⟨write, hwrite, htext⟩ := hwritten.readText (hmem document hdocument)
  rw [writesOf, List.filter_map, List.getLast?_map] at hwrite
  obtain ⟨last, hlast, rfl⟩ := Option.map_eq_some_iff.mp hwrite
  exact ⟨last, hlast, htext⟩

namespace Filed

variable (h : report.Filed folder left)

include h

/-- A document is in its own file unless a later one, which differs from it, is at the same place. -/
theorem readText_own_iff {before after : List (String × Datum)} {document : String × Datum}
    (hsplit : report.documents = before ++ document :: after)
    (hdiffer : ∀ later ∈ after, Json.pretty 0 later.2 ≠ Json.pretty 0 document.2) :
    left.readText (folder.join document.1) = .ok (Json.pretty 0 document.2) ↔
      ∀ later ∈ after, left.locate (folder.join later.1) ≠ left.locate (folder.join document.1) := by
  have hmem : document ∈ report.documents := hsplit ▸ List.mem_append_right _ List.mem_cons_self
  obtain ⟨last, hlast, htext⟩ := h.readText _ hmem
  rw [hsplit, List.filter_append, List.filter_cons_of_pos (by simp), List.getLast?_append_cons,
    List.getLast?_cons] at hlast
  rw [htext]
  constructor
  · intro hown later hlater hplace
    have hmem : later ∈ after.filter fun other =>
        left.locate (folder.join other.1) = left.locate (folder.join document.1) :=
      List.mem_filter.mpr ⟨hlater, decide_eq_true hplace⟩
    obtain ⟨other, hother⟩ := Option.isSome_iff_exists.mp (List.getLast?_isSome.mpr (List.ne_nil_of_mem hmem))
    rw [hother] at hlast
    cases hlast
    exact hdiffer _ (List.mem_filter.mp (List.mem_of_getLast? hother)).1 (Except.ok.inj hown)
  · intro hplaces
    rw [List.filter_eq_nil_iff.mpr fun later hlater => by simpa using hplaces later hlater] at hlast
    cases hlast
    rfl

/-- The last document is in its own file in any case. -/
theorem readText_summary : left.readText (folder.join "summary.json") = .ok (Json.pretty 0 report.summaryDatum) := by
  have hsplit : report.documents =
      report.namespaces.map namespaceDocument ++ ("summary.json", report.summaryDatum) :: [] := rfl
  exact (h.readText_own_iff hsplit nofun).mpr nofun

/-- A namespace is told in its own file unless a later one, or the summary, is at the same place. -/
theorem readText_namespace_iff (hkeys : (report.namespaces.map (·.key)).Nodup)
    {before after : List NamespaceOutput} {output : NamespaceOutput}
    (hsplit : report.namespaces = before ++ output :: after) :
    left.readText (folder.join (namespaceDocument output).1) = .ok (Json.pretty 0 (namespaceDatum output)) ↔
      (∀ later ∈ after, left.locate (folder.join (namespaceDocument later).1) ≠
        left.locate (folder.join (namespaceDocument output).1)) ∧
      left.locate (folder.join "summary.json") ≠ left.locate (folder.join (namespaceDocument output).1) := by
  have hdocuments : report.documents = before.map namespaceDocument ++
      namespaceDocument output :: (after.map namespaceDocument ++ [("summary.json", report.summaryDatum)]) := by
    rw [documents, hsplit, List.map_append, List.map_cons, List.append_assoc, List.cons_append]
    rfl
  have hfresh : ∀ later ∈ after, later.key ≠ output.key := by
    rw [hsplit, List.map_append, List.map_cons] at hkeys
    have houtput := (List.nodup_cons.mp hkeys.of_append_right).1
    exact fun later hlater heq => houtput (heq ▸ List.mem_map_of_mem hlater)
  have hdiffer : ∀ later ∈ after.map namespaceDocument ++ [("summary.json", report.summaryDatum)],
      Json.pretty 0 later.2 ≠ Json.pretty 0 (namespaceDocument output).2 := by
    rw [List.forall_mem_append, List.forall_mem_map, List.forall_mem_singleton]
    exact ⟨fun later hlater heq => hfresh later hlater (key_eq_of_pretty heq), report.pretty_summaryDatum_ne output⟩
  have hown := h.readText_own_iff hdocuments hdiffer
  rw [List.forall_mem_append, List.forall_mem_map, List.forall_mem_singleton] at hown
  exact hown

/-- Where file names have no slashes, two documents are at the same place only if their names are the same. -/
theorem locate_eq_iff (hnames : report.NamesFiles) {document other : String × Datum}
    (hdocument : document ∈ report.documents) (hother : other ∈ report.documents) :
    left.locate (folder.join other.1) = left.locate (folder.join document.1) ↔ other.1 = document.1 := by
  obtain ⟨position, hposition⟩ := h.leads _ hdocument
  exact FileTree.locate_join_eq_iff (isName_of_mem_documents hnames hdocument)
    (isName_of_mem_documents hnames hother) hposition

/-- Where file names have no slashes, a namespace is told in its own file unless a later one has its name. -/
theorem readText_namespace_iff_of_namesFiles (hnames : report.NamesFiles)
    (hkeys : (report.namespaces.map (·.key)).Nodup) {before after : List NamespaceOutput} {output : NamespaceOutput}
    (hsplit : report.namespaces = before ++ output :: after) :
    left.readText (folder.join (namespaceDocument output).1) = .ok (Json.pretty 0 (namespaceDatum output)) ↔
      ∀ later ∈ after, later.key.canonicalName ≠ output.key.canonicalName := by
  have hmem : ∀ other ∈ output :: after, namespaceDocument other ∈ report.documents :=
    fun other hother => mem_documents.mpr (.inl ⟨other, hsplit ▸ List.mem_append_right _ hother, rfl⟩)
  have hsummary : left.locate (folder.join "summary.json") ≠ left.locate (folder.join (namespaceDocument output).1) :=
    fun hplace => canonicalName_ne_summary output.key ((h.locate_eq_iff hnames (hmem _ List.mem_cons_self)
      (mem_documents.mpr (.inr rfl))).mp hplace).symm
  rw [h.readText_namespace_iff hkeys hsplit, and_iff_left hsummary]
  refine forall₂_congr fun later hlater => not_congr ?_
  rw [h.locate_eq_iff hnames (hmem _ List.mem_cons_self) (hmem _ (List.mem_cons_of_mem _ hlater))]
  exact String.append_left_inj ".json"

end Filed

end Report

/-- Where all of a report can be written, it is, and gives a path for each of its namespaces, which are different
ones, and one for the summary. Where several paths lead to one place, the last document stays there: the summary
is always left, and a namespace is told in its own file unless a later one, or the summary, is at the same place.
Between names of files, that is a later one with the same name, and the paths are different just if the names are.
Two keys have one name only if they are the same or the name of one takes up some of the other's version.
-/
theorem report_filed {g : Graph} (hg : Obtained g) {options : Options} {m : Memo} {report : Report}
    (hreport : (g.generate options m).1.outcome = .ok report) {folder : Path} {tree left : FileTree}
    (hwrites : report.WritesAll folder tree left) :
    ∃ paths, (report.write folder).run.run tree = (.ok paths, left) ∧
      paths = report.documents.map (fun document => folder.join document.1) ∧
      paths.length = report.namespaces.length + 1 ∧
      (report.namespaces.map (·.key)).Nodup ∧
      report.Filed folder left ∧
      left.readText (folder.join "summary.json") = .ok (Json.pretty 0 report.summaryDatum) ∧
      (∀ before output after, report.namespaces = before ++ output :: after →
        (left.readText (folder.join (Report.namespaceDocument output).1) =
            .ok (Json.pretty 0 (Report.namespaceDatum output)) ↔
          (∀ later ∈ after, left.locate (folder.join (Report.namespaceDocument later).1) ≠
            left.locate (folder.join (Report.namespaceDocument output).1)) ∧
          left.locate (folder.join "summary.json") ≠
            left.locate (folder.join (Report.namespaceDocument output).1)) ∧
        (report.NamesFiles → (left.readText (folder.join (Report.namespaceDocument output).1) =
            .ok (Json.pretty 0 (Report.namespaceDatum output)) ↔
          ∀ later ∈ after, later.key.canonicalName ≠ output.key.canonicalName))) ∧
      (report.NamesFiles → (paths.Nodup ↔ (report.namespaces.map (·.key.canonicalName)).Nodup)) ∧
      ∀ a b : NamespaceKey, a.canonicalName = b.canonicalName ↔ a = b ∨ a.Overlaps b ∨ b.Overlaps a := by
  have hfiled := hwrites.filed
  have hkeys := hg.nodup_keys hreport
  refine ⟨_, Report.write_eq_ok.mpr ⟨rfl, hwrites⟩, rfl, ?_, hkeys, hfiled, hfiled.readText_summary,
    fun before output after hsplit => ?_, Report.nodup_paths_iff, fun a b => NamespaceKey.canonicalName_eq_iff⟩
  · rw [Report.documents, List.length_map, List.length_append, List.length_map, List.length_singleton]
  · exact ⟨hfiled.readText_namespace_iff hkeys hsplit,
      fun hnames => hfiled.readText_namespace_iff_of_namesFiles hnames hkeys hsplit⟩

namespace Sample

def bareDescription (key : NamespaceKey) : Description where
  namespaceInfo := { name := some key.name, version := some key.version }

def hyphenated : Graph := ({} : Graph).after
  [.register (bareDescription ⟨"Gtk", "4-beta"⟩), .register (bareDescription ⟨"Gtk-4", "beta"⟩), .link]

def bareRepository (key : NamespaceKey) : Repository where
  content := { key }
  includes := []

theorem hyphenated_eq : hyphenated = {
    repositories := [bareRepository ⟨"Gtk", "4-beta"⟩, bareRepository ⟨"Gtk-4", "beta"⟩]
    positions := [(⟨"Gtk-4", "beta"⟩, ⟨1⟩), (⟨"Gtk", "4-beta"⟩, ⟨0⟩)]
    buildOrder := [⟨1⟩, ⟨0⟩] } := by
  cbv

def bareOutput (key : NamespaceKey) : NamespaceOutput := ⟨key, none, []⟩

def hyphenatedReport : Report where
  namespaces := [bareOutput ⟨"Gtk-4", "beta"⟩, bareOutput ⟨"Gtk", "4-beta"⟩]
  skipped := []

theorem outcome_hyphenated : (hyphenated.generate {} {}).1.outcome = .ok hyphenatedReport := by
  rw [hyphenated_eq]
  rfl

def hyphenatedPaths : List Path := [⟨"out/Gtk-4-beta.json"⟩, ⟨"out/Gtk-4-beta.json"⟩, ⟨"out/summary.json"⟩]

theorem paths_hyphenated :
    hyphenatedReport.documents.map (fun document => Path.join ⟨"out"⟩ document.1) = hyphenatedPaths := by
  decide +kernel

/-- A folder that is empty. -/
def outFolder : FileTree := { entries := [(["out"], .folder)] }

theorem exists_writesAll_hyphenated : ∃ left, hyphenatedReport.WritesAll ⟨"out"⟩ {} left := by
  have hmade : ({} : FileTree).makeFolders ⟨"out"⟩ = .ok outFolder := rfl
  have hfree : ∀ name, outFolder.entry? ["out", name] ≠ some .folder := nofun
  have hplaces : ∀ path ∈ hyphenatedPaths, ∃ position,
      outFolder.locate path = .ok position ∧ outFolder.entry? position ≠ some .folder := by
    have hnamespace : outFolder.locate ⟨"out/Gtk-4-beta.json"⟩ = .ok ["out", "Gtk-4-beta.json"] := by decide +kernel
    have hsummary : outFolder.locate ⟨"out/summary.json"⟩ = .ok ["out", "summary.json"] := by decide +kernel
    intro path hpath
    have hnames : path = ⟨"out/Gtk-4-beta.json"⟩ ∨ path = ⟨"out/summary.json"⟩ := by
      simpa [hyphenatedPaths] using hpath
    rcases hnames with rfl | rfl
    · exact ⟨_, hnamespace, hfree _⟩
    · exact ⟨_, hsummary, hfree _⟩
  have hwrites : ∀ write ∈ Report.writesOf ⟨"out"⟩ hyphenatedReport.documents, ∃ position,
      outFolder.locate write.1 = .ok position ∧ outFolder.entry? position ≠ some .folder := by
    intro write hwrite
    obtain ⟨document, hdocument, rfl⟩ := List.mem_map.mp hwrite
    refine hplaces _ ?_
    rw [← paths_hyphenated]
    exact List.mem_map_of_mem hdocument
  obtain ⟨left, hleft⟩ := FileTree.exists_foldlM_writeText hwrites
  exact ⟨left, outFolder, hmade, hleft⟩

theorem namesFiles_hyphenated : hyphenatedReport.NamesFiles := by decide +kernel

theorem join_hyphenated : ∀ output ∈ hyphenatedReport.namespaces,
    Path.join ⟨"out"⟩ (Report.namespaceDocument output).1 = ⟨"out/Gtk-4-beta.json"⟩ := by
  decide +kernel

end Sample

/-- Of two namespaces with one name, the file tells the one that is written last. -/
theorem report_filed_hyphenated : Obtained Sample.hyphenated ∧
    (Sample.hyphenated.generate {} {}).1.outcome = .ok Sample.hyphenatedReport ∧
    ∃ paths left, (Sample.hyphenatedReport.write ⟨"out"⟩).run.run {} = (.ok paths, left) ∧
      paths.length = 3 ∧ ¬paths.Nodup ∧
      left.readText ⟨"out/Gtk-4-beta.json"⟩ =
        .ok (Json.pretty 0 (Report.namespaceDatum (Sample.bareOutput ⟨"Gtk", "4-beta"⟩))) := by
  have hobtained : Obtained Sample.hyphenated := Obtained.empty.after _
  obtain ⟨left, hleft⟩ := Sample.exists_writesAll_hyphenated
  obtain ⟨paths, hwrite, -, hlength, -, -, -, hfiles, hdistinct, -⟩ :=
    report_filed hobtained Sample.outcome_hyphenated hleft
  refine ⟨hobtained, Sample.outcome_hyphenated, paths, left, hwrite, hlength, ?_, ?_⟩
  · rw [hdistinct Sample.namesFiles_hyphenated]
    decide +kernel
  · rw [← Sample.join_hyphenated _ (.tail _ (.head _))]
    exact ((hfiles [Sample.bareOutput ⟨"Gtk-4", "beta"⟩] _ [] rfl).2 Sample.namesFiles_hyphenated).mpr nofun

/-- Two namespaces with different keys are written to one path, where only the second one is left. -/
theorem hyphenated_overwritten : Obtained Sample.hyphenated ∧
    (Sample.hyphenated.generate {} {}).1.outcome = .ok Sample.hyphenatedReport ∧
    Sample.hyphenatedReport.namespaces.map (·.key) = [⟨"Gtk-4", "beta"⟩, ⟨"Gtk", "4-beta"⟩] ∧
    ∃ left, (Sample.hyphenatedReport.write ⟨"out"⟩).run.run {} =
        (.ok [⟨"out/Gtk-4-beta.json"⟩, ⟨"out/Gtk-4-beta.json"⟩, ⟨"out/summary.json"⟩], left) ∧
      left.readText ⟨"out/Gtk-4-beta.json"⟩ ≠
        .ok (Json.pretty 0 (Report.namespaceDatum (Sample.bareOutput ⟨"Gtk-4", "beta"⟩))) := by
  have hobtained : Obtained Sample.hyphenated := Obtained.empty.after _
  obtain ⟨left, hleft⟩ := Sample.exists_writesAll_hyphenated
  have hsame : (NamespaceKey.mk "Gtk" "4-beta").canonicalName = (NamespaceKey.mk "Gtk-4" "beta").canonicalName := by
    decide +kernel
  have hsplit : Sample.hyphenatedReport.namespaces =
      [] ++ Sample.bareOutput ⟨"Gtk-4", "beta"⟩ :: [Sample.bareOutput ⟨"Gtk", "4-beta"⟩] := rfl
  have hkeys := hobtained.nodup_keys Sample.outcome_hyphenated
  have hwrite := Report.write_eq_ok.mpr ⟨Sample.paths_hyphenated.symm, hleft⟩
  refine ⟨hobtained, Sample.outcome_hyphenated, rfl, left, hwrite, fun hown => ?_⟩
  rw [← Sample.join_hyphenated _ (.head _)] at hown
  exact (hleft.filed.readText_namespace_iff_of_namesFiles Sample.namesFiles_hyphenated hkeys hsplit).mp hown _
    List.mem_cons_self hsame

end Interop
