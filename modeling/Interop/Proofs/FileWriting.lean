import Mathlib
import Interop.Proofs.Traversal
import Interop.Report.Files

/-! Writing files one after another. Where a path leads to is not changed by writing files, and a file has the
text that was written last to where its path leads. Paths to plain names in one folder lead to one place only
if the names are the same. Main statements: `writes_of_foldlM`, `Writes.readText`. -/

namespace Interop

namespace FileTree

variable {tree left : FileTree} {position other : List String} {entry : Entry} {path : Path} {text : String}

/-! ### One file -/

theorem lookup_filter_ne {entries : List (List String × Entry)} :
    (entries.filter (·.1 != position)).lookup other = if other = position then none else entries.lookup other := by
  induction entries with
  | nil => simp
  | cons first entries ih =>
      obtain ⟨place, standing⟩ := first
      by_cases hplace : place = position
      · subst hplace
        rw [List.filter_cons_of_neg (by simp), ih, List.lookup_cons]
        by_cases hother : other = place
        · rw [if_pos hother, if_pos hother]
        · rw [if_neg hother, if_neg hother, beq_false_of_ne hother]
      · rw [List.filter_cons_of_pos (by simpa using hplace), List.lookup_cons, List.lookup_cons, ih]
        by_cases hother : other = place
        · subst hother
          rw [if_neg hplace, beq_self_eq_true]
          exact (if_neg hplace).symm
        · rw [beq_false_of_ne hother]

theorem entry?_put : entry? (tree.put position entry) other =
    if other = [] then some .folder else if other = position then some entry else tree.entry? other := by
  by_cases hroot : other = []
  · subst hroot
    rfl
  · have hnonempty : other.isEmpty = false := by simpa using hroot
    rw [if_neg hroot, entry?, entry?, hnonempty, if_neg Bool.false_ne_true, if_neg Bool.false_ne_true, put,
      List.lookup_append, lookup_filter_ne]
    by_cases hother : other = position
    · subst hother
      simp
    · simp [hother, List.lookup_cons, beq_false_of_ne hother]

/-- A step goes through a folder, which is not replaced by a file. -/
theorem step_put (hentry : tree.entry? position ≠ some .folder) {start next : List String} {segment : String}
    (h : tree.step start segment = .ok next) : (tree.put position entry).step start segment = .ok next := by
  have hfolder : tree.entry? start = some .folder := by
    unfold step at h
    split at h
    · cases h
    · cases h
    · next hfolder => exact hfolder
  have hput : entry? (tree.put position entry) start = some .folder := by
    rw [entry?_put]
    split
    · rfl
    · rw [if_neg, hfolder]
      rintro rfl
      exact hentry hfolder
  rw [step, hfolder] at h
  rw [step, hput]
  exact h

theorem locate_put (hentry : tree.entry? position ≠ some .folder) (h : tree.locate path = .ok other) :
    (tree.put position entry).locate path = .ok other := by
  have hsteps : ∀ {segments : List String} {start : List String}, segments.foldlM tree.step start = .ok other →
      segments.foldlM (tree.put position entry).step start = .ok other := by
    intro segments
    induction segments with
    | nil => exact fun h => h
    | cons segment segments ih =>
        intro start h
        rw [List.foldlM_cons] at h ⊢
        obtain ⟨next, hnext, h⟩ := bind_eq_ok.mp h
        exact bind_eq_ok.mpr ⟨next, step_put hentry hnext, ih h⟩
  unfold locate at h ⊢
  split at h
  · cases h
  next hempty =>
  split at h
  · cases h
  next hnull =>
  split at h
  · cases h
  next hlong =>
  rw [if_neg hempty, if_neg hnull, if_neg hlong]
  exact hsteps h

theorem writeText_eq_ok : tree.writeText path text = .ok left ↔
    ∃ position, tree.locate path = .ok position ∧ tree.entry? position ≠ some .folder ∧
      left = tree.put position (.file text.toUTF8) := by
  rw [writeText, bind_eq_ok]
  refine exists_congr fun position => and_congr_right fun _ => ?_
  cases tree.entry? position with
  | none => exact ⟨fun h => ⟨nofun, (Except.ok.inj h).symm⟩, fun ⟨_, h⟩ => congrArg Except.ok h.symm⟩
  | some standing =>
      cases standing with
      | folder => exact iff_of_false nofun fun ⟨h, _⟩ => h rfl
      | file content => exact ⟨fun h => ⟨nofun, (Except.ok.inj h).symm⟩, fun ⟨_, h⟩ => congrArg Except.ok h.symm⟩

theorem readText_of_file (hlocate : tree.locate path = .ok position)
    (hentry : tree.entry? position = some (.file text.toUTF8)) : tree.readText path = .ok text := by
  have hfind : tree.find path = .ok (.file text.toUTF8) := by
    refine bind_eq_ok.mpr ⟨position, hlocate, ?_⟩
    rw [hentry]
    rfl
  have htext : String.fromUTF8? text.toUTF8 = some text :=
    dif_pos (show text.toUTF8.IsValidUTF8 from text.isValidUTF8)
  refine bind_eq_ok.mpr ⟨_, hfind, ?_⟩
  dsimp only
  rw [htext]
  rfl

/-! ### Many files -/

/-- The last of some texts that were written to where a position is. -/
def lastAt (left : FileTree) (writes : List (Path × String)) (position : List String) : Option (Path × String) :=
  (writes.filter fun write => left.locate write.1 = .ok position).getLast?

/-- What texts written to paths make of a tree. -/
structure Writes (tree : FileTree) (writes : List (Path × String)) (left : FileTree) : Prop where
  stays : ∀ path position, tree.locate path = .ok position → left.locate path = .ok position
  leads : ∀ write ∈ writes, ∃ position, left.locate write.1 = .ok position
  entry?_eq : ∀ position, left.entry? position =
    ((left.lastAt writes position).map fun write => .file write.2.toUTF8).or (tree.entry? position)

theorem Writes.cons {write : Path × String} {writes : List (Path × String)} {between : FileTree}
    (hwrite : tree.writeText write.1 write.2 = .ok between) (h : between.Writes writes left) :
    tree.Writes (write :: writes) left := by
  obtain ⟨position, hlocate, hentry, rfl⟩ := writeText_eq_ok.mp hwrite
  have hleft : left.locate write.1 = .ok position := h.stays _ _ (locate_put hentry hlocate)
  constructor
  · exact fun path other hpath => h.stays path other (locate_put hentry hpath)
  · exact List.forall_mem_cons.mpr ⟨⟨position, hleft⟩, h.leads⟩
  · intro other
    rw [h.entry?_eq, entry?_put, lastAt, lastAt]
    by_cases hother : other = position
    · subst hother
      have hroot : other ≠ [] := by
        rintro rfl
        exact hentry rfl
      rw [List.filter_cons_of_pos (by simpa using hleft), if_neg hroot, if_pos rfl, List.getLast?_cons]
      cases (writes.filter fun write => left.locate write.1 = .ok other).getLast? <;> rfl
    · have hne : ¬left.locate write.1 = .ok other := by
        rw [hleft]
        exact fun heq => hother (Except.ok.inj heq).symm
      rw [List.filter_cons_of_neg (by simpa using hne), if_neg hother]
      split
      · next hroot =>
          subst hroot
          rfl
      · rfl

/-- Writing files one after another. -/
theorem writes_of_foldlM {writes : List (Path × String)}
    (h : writes.foldlM (fun tree write => tree.writeText write.1 write.2) tree = .ok left) :
    tree.Writes writes left := by
  induction writes generalizing tree with
  | nil =>
      cases h
      exact ⟨fun _ _ h => h, fun _ h => absurd h List.not_mem_nil, fun _ => rfl⟩
  | cons write writes ih =>
      rw [List.foldlM_cons] at h
      obtain ⟨between, hwrite, h⟩ := bind_eq_ok.mp h
      exact .cons hwrite (ih h)

/-- Files can be written where no folder stands. -/
theorem exists_foldlM_writeText {writes : List (Path × String)} (h : ∀ write ∈ writes, ∃ position,
    tree.locate write.1 = .ok position ∧ tree.entry? position ≠ some .folder) :
    ∃ left, writes.foldlM (fun tree write => tree.writeText write.1 write.2) tree = .ok left := by
  induction writes generalizing tree with
  | nil => exact ⟨tree, rfl⟩
  | cons write writes ih =>
      obtain ⟨⟨position, hlocate, hentry⟩, hwrites⟩ := List.forall_mem_cons.mp h
      have hput : ∀ later ∈ writes, ∃ other,
          (tree.put position (.file write.2.toUTF8)).locate later.1 = .ok other ∧
          entry? (tree.put position (.file write.2.toUTF8)) other ≠ some .folder := by
        intro later hlater
        obtain ⟨other, hother, hstanding⟩ := hwrites later hlater
        have hroot : other ≠ [] := by
          rintro rfl
          exact hstanding rfl
        refine ⟨other, locate_put hentry hother, ?_⟩
        rw [entry?_put, if_neg hroot]
        split
        · nofun
        · exact hstanding
      obtain ⟨left, hleft⟩ := ih hput
      refine ⟨left, ?_⟩
      rw [List.foldlM_cons]
      exact bind_eq_ok.mpr ⟨_, writeText_eq_ok.mpr ⟨position, hlocate, hentry, rfl⟩, hleft⟩

/-- A file that was written has the text that was written last to where it is. -/
theorem Writes.readText {writes : List (Path × String)} (h : tree.Writes writes left) {write : Path × String}
    (hwrite : write ∈ writes) : ∃ last,
      (writes.filter fun other => left.locate other.1 = left.locate write.1).getLast? = some last ∧
      left.readText write.1 = .ok last.2 := by
  obtain ⟨position, hposition⟩ := h.leads write hwrite
  have hmem : write ∈ writes.filter fun other => left.locate other.1 = .ok position :=
    List.mem_filter.mpr ⟨hwrite, by simpa using hposition⟩
  rw [hposition]
  cases hlast : (writes.filter fun other => left.locate other.1 = .ok position).getLast? with
  | none =>
      rw [List.getLast?_eq_none_iff.mp hlast] at hmem
      cases hmem
  | some last =>
      refine ⟨last, rfl, readText_of_file hposition ?_⟩
      rw [h.entry?_eq, lastAt, hlast]
      rfl

end FileTree

/-! ### Names in a folder -/

namespace Path

theorem splitSlashes_ne_nil (text : List Char) : splitSlashes text ≠ [] := by
  cases text with
  | nil => nofun
  | cons c text =>
      rw [splitSlashes]
      split
      · nofun
      · split <;> nofun

theorem splitSlashes_append_slash (front back : List Char) :
    splitSlashes (front ++ '/' :: back) = splitSlashes front ++ splitSlashes back := by
  induction front with
  | nil => rfl
  | cons c front ih =>
      rw [List.cons_append, splitSlashes, splitSlashes]
      split
      · rw [ih, List.cons_append]
      · rw [ih]
        cases hfront : splitSlashes front with
        | nil => exact absurd hfront (splitSlashes_ne_nil front)
        | cons piece others => rfl

theorem splitSlashes_of_not_mem {text : List Char} (h : '/' ∉ text) : splitSlashes text = [text] := by
  induction text with
  | nil => rfl
  | cons c text ih =>
      rw [List.mem_cons, not_or] at h
      rw [splitSlashes, if_neg fun hc => h.1 hc.symm, ih h.2]

/-- A name of a file, without any folder. -/
structure IsName (name : String) : Prop where
  slash : '/' ∉ name.toList
  special : name ≠ "" ∧ name ≠ "." ∧ name ≠ ".."

/-- A name is the last piece of its path in a folder. -/
theorem segments_join (folder : Path) {name : String} (h : IsName name) :
    ∃ pieces, (folder.join name).segments = pieces ++ [name] := by
  have hrelative : (Path.mk name).isAbsolute = false := by
    have hhead : name.toList.head? ≠ some '/' := fun hhead => h.slash (List.mem_of_mem_head? hhead)
    simpa [isAbsolute] using hhead
  have hlast : ∀ front : List Char, ∃ pieces,
      (splitSlashes (front ++ '/' :: name.toList)).map String.ofList = pieces ++ [name] := by
    intro front
    refine ⟨(splitSlashes front).map String.ofList, ?_⟩
    rw [splitSlashes_append_slash, splitSlashes_of_not_mem h.slash, List.map_append, List.map_singleton,
      String.ofList_toList]
  rw [join, hrelative, Bool.false_or]
  split
  · refine ⟨[], ?_⟩
    rw [segments, splitSlashes_of_not_mem h.slash, List.map_singleton, String.ofList_toList, List.nil_append]
  · split
    · next hslash =>
        obtain ⟨front, hfront⟩ := List.getLast?_eq_some_iff.mp hslash
        obtain ⟨pieces, hpieces⟩ := hlast front
        refine ⟨pieces, ?_⟩
        rw [segments, String.toList_append, hfront, List.append_assoc]
        exact hpieces
    · obtain ⟨pieces, hpieces⟩ := hlast folder.text.toList
      refine ⟨pieces, ?_⟩
      rw [segments, String.toList_append, String.toList_append, List.append_assoc]
      exact hpieces

theorem join_inj {folder : Path} {name other : String} (hname : IsName name) (hother : IsName other) :
    folder.join name = folder.join other ↔ name = other := by
  constructor
  · intro heq
    obtain ⟨pieces, hpieces⟩ := folder.segments_join hname
    obtain ⟨pieces', hpieces'⟩ := folder.segments_join hother
    rw [heq, hpieces'] at hpieces
    have hlast := congrArg List.getLast? hpieces
    rw [List.getLast?_concat, List.getLast?_concat] at hlast
    exact (Option.some.inj hlast).symm
  · exact congrArg folder.join

end Path

namespace FileTree

variable {tree : FileTree} {folder : Path} {name other : String} {position : List String}

/-- A path to a name in a folder leads to a place with that name. -/
theorem getLast?_of_locate_join (hname : Path.IsName name) (h : tree.locate (folder.join name) = .ok position) :
    position.getLast? = some name := by
  obtain ⟨pieces, hpieces⟩ := folder.segments_join hname
  unfold locate at h
  split at h
  · cases h
  split at h
  · cases h
  split at h
  · cases h
  rw [hpieces, List.foldlM_append] at h
  obtain ⟨above, -, h⟩ := bind_eq_ok.mp h
  rw [List.foldlM_cons] at h
  obtain ⟨found, hfound, h⟩ := bind_eq_ok.mp h
  cases h
  obtain ⟨hempty, hcurrent, hparent⟩ := hname.special
  unfold step at hfound
  split at hfound
  · cases hfound
  · cases hfound
  · rw [if_neg (not_or.mpr ⟨hempty, hcurrent⟩), if_neg hparent] at hfound
    split at hfound
    · cases hfound
    · cases hfound
      exact List.getLast?_concat

/-- Two names in one folder are at the same place only if they are the same. -/
theorem locate_join_eq_iff (hname : Path.IsName name) (hother : Path.IsName other)
    (h : tree.locate (folder.join name) = .ok position) :
    tree.locate (folder.join other) = tree.locate (folder.join name) ↔ other = name := by
  constructor
  · intro heq
    have hlast := getLast?_of_locate_join hname h
    rw [h] at heq
    exact Option.some.inj ((getLast?_of_locate_join hother heq).symm.trans hlast)
  · rintro rfl
    rfl

end FileTree

/-! ### Documents -/

namespace Filing

variable {context : String} {f : FileTree → Except FileError FileTree} {tree changed left : FileTree}

theorem run_change_of_ok (h : f tree = .ok changed) : (change context f).run.run tree = (.ok (), changed) := by
  have htree : (getThe FileTree : Filing FileTree).run.run tree = (.ok tree, tree) := rfl
  unfold change
  rw [run_bind, htree]
  dsimp only
  rw [h]
  rfl

theorem run_change_of_error {error : FileError} (h : f tree = .error error) :
    (change context f).run.run tree = (.error (.within context (.stated error.message)), tree) := by
  have htree : (getThe FileTree : Filing FileTree).run.run tree = (.ok tree, tree) := rfl
  unfold change
  rw [run_bind, htree]
  dsimp only
  rw [h]
  rfl

theorem change_eq_ok : (change context f).run.run tree = (.ok (), left) ↔ f tree = .ok left := by
  constructor
  · intro h
    cases hf : f tree with
    | ok changed =>
        rw [run_change_of_ok hf] at h
        exact congrArg Except.ok (congrArg Prod.snd h)
    | error error =>
        rw [run_change_of_error hf] at h
        cases h
  · exact run_change_of_ok

end Filing

namespace Report

variable {folder : Path} {tree left : FileTree}

/-- What is written for documents: their texts, each to the path of its name. -/
def writesOf (folder : Path) (documents : List (String × Datum)) : List (Path × String) :=
  documents.map fun document => (folder.join document.1, Json.pretty 0 document.2)

theorem writeDocument_eq_ok {name : String} {document : Datum} {path : Path} :
    (writeDocument folder name document).run.run tree = (.ok path, left) ↔
      path = folder.join name ∧ tree.writeText (folder.join name) (Json.pretty 0 document) = .ok left := by
  unfold writeDocument
  dsimp only
  rw [run_bind_eq_ok]
  constructor
  · rintro ⟨_, between, hchange, hpath⟩
    cases hpath
    exact ⟨rfl, Filing.change_eq_ok.mp hchange⟩
  · rintro ⟨rfl, hwrite⟩
    exact ⟨(), left, Filing.change_eq_ok.mpr hwrite, rfl⟩

/-- Documents that are written one after another give their paths. -/
theorem mapM_writeDocument_eq_ok {documents : List (String × Datum)} {paths : List Path} :
    (documents.mapM fun document => writeDocument folder document.1 document.2).run.run tree = (.ok paths, left) ↔
      paths = documents.map (fun document => folder.join document.1) ∧
      (writesOf folder documents).foldlM (fun tree write => tree.writeText write.1 write.2) tree = .ok left := by
  induction documents generalizing tree paths with
  | nil =>
      constructor
      · rintro ⟨⟩
        exact ⟨rfl, rfl⟩
      · rintro ⟨rfl, ⟨⟩⟩
        rfl
  | cons document documents ih =>
      rw [List.mapM_cons, run_bind_eq_ok, writesOf, List.map_cons, List.map_cons, List.foldlM_cons, bind_eq_ok]
      constructor
      · rintro ⟨path, between, hpath, h⟩
        obtain ⟨rest, last, hrest, h⟩ := run_bind_eq_ok.mp h
        cases h
        obtain ⟨rfl, hwrite⟩ := writeDocument_eq_ok.mp hpath
        obtain ⟨rfl, hwrites⟩ := ih.mp hrest
        exact ⟨rfl, between, hwrite, hwrites⟩
      · rintro ⟨rfl, between, hwrite, hwrites⟩
        exact ⟨_, between, writeDocument_eq_ok.mpr ⟨rfl, hwrite⟩,
          run_bind_eq_ok.mpr ⟨_, left, ih.mpr ⟨rfl, hwrites⟩, rfl⟩⟩

/-- The folder can be made, and then each document of a report can be written behind those before it. -/
def WritesAll (report : Report) (folder : Path) (tree left : FileTree) : Prop :=
  ∃ made, tree.makeFolders folder = .ok made ∧
    (writesOf folder report.documents).foldlM (fun tree write => tree.writeText write.1 write.2) made = .ok left

/-- A report is written if all of it can be, and gives the paths of its documents. -/
theorem write_eq_ok {report : Report} {paths : List Path} :
    (report.write folder).run.run tree = (.ok paths, left) ↔
      paths = report.documents.map (fun document => folder.join document.1) ∧ report.WritesAll folder tree left := by
  unfold write
  rw [run_bind_eq_ok]
  constructor
  · rintro ⟨_, made, hmade, h⟩
    obtain ⟨hpaths, hwrites⟩ := mapM_writeDocument_eq_ok.mp h
    exact ⟨hpaths, made, Filing.change_eq_ok.mp hmade, hwrites⟩
  · rintro ⟨hpaths, made, hmade, hwrites⟩
    exact ⟨(), made, Filing.change_eq_ok.mpr hmade, mapM_writeDocument_eq_ok.mpr ⟨hpaths, hwrites⟩⟩

end Report

end Interop
