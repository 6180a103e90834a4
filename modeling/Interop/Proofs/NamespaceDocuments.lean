import Mathlib
import Interop.Report.Files

/-! The documents of namespaces. A literal that is written is read as its text again, so that the document of a
namespace tells its name and version. Main statements: `read_write`, `key_eq_of_pretty`, `pretty_summaryDatum_ne`. -/

namespace Interop

namespace JsonText

/-- The written form of a character is read as the character. -/
theorem read_escape (p : Progress) (c : Char) (rest : List Char) :
    read p (escape c ++ rest) = read (p.char c) rest := by
  unfold escape
  split
  · rfl
  · rfl
  · rfl
  · rfl
  · rfl
  · rfl
  · rfl
  · next hquote hbackslash _ _ _ _ _ =>
    split
    · next hcontrol =>
      have hnumber : ∀ n < 0x20, hexNumber ['0', '0', hexChar (n / 16), hexChar (n % 16)] = some n := by decide
      have hunit : p.unit c.toNat = p.char c := by
        rw [Progress.unit, if_neg (by omega), if_neg (by omega), Char.ofNat_toNat]
      show read p ('\\' :: 'u' :: '0' :: '0' :: hexChar (c.toNat / 16) :: hexChar (c.toNat % 16) :: rest) = _
      rw [read, hnumber _ hcontrol]
      exact congrArg (read · rest) hunit
    · next hplain =>
      rw [List.singleton_append, read, if_neg hplain]
      · exact hquote
      · exact fun _ _ _ _ _ h _ => hbackslash h
      · exact fun _ _ h _ => hbackslash h

theorem read_flatMap_escape {p : Progress} (hp : p.lead = none) (text rest : List Char) :
    read p (text.flatMap escape ++ '"' :: rest) =
      some (Progress.finish ⟨text.reverse ++ p.reversed, none, p.paired⟩, rest) := by
  induction text generalizing p with
  | nil =>
      obtain ⟨reversed, lead, paired⟩ := p
      obtain rfl : lead = none := hp
      rfl
  | cons c text ih =>
      rw [List.flatMap_cons, List.append_assoc, read_escape, ih rfl, List.reverse_cons, List.append_assoc]
      simp only [Progress.char, hp, Option.isNone_none, Bool.and_true, List.singleton_append]

/-- A literal that is written is read as its text again. -/
theorem read_write (text : String) (rest : List Char) :
    ∃ written, (write text).toList ++ rest = '"' :: written ∧ read {} written = some (some text, rest) := by
  refine ⟨text.toList.flatMap escape ++ '"' :: rest, ?_, ?_⟩
  · simp only [write, String.toList_append, String.toList_ofList, List.append_assoc]
    rfl
  · rw [read_flatMap_escape rfl, List.append_nil]
    simp [Progress.finish]

/-- Literals at the front of a text are told apart. -/
theorem write_append_inj {text text' : String} {rest rest' : List Char}
    (h : (write text).toList ++ rest = (write text').toList ++ rest') : text = text' ∧ rest = rest' := by
  obtain ⟨written, hwritten, hread⟩ := read_write text rest
  obtain ⟨written', hwritten', hread'⟩ := read_write text' rest'
  rw [hwritten, hwritten'] at h
  obtain rfl := (List.cons.inj h).2
  rw [hread] at hread'
  obtain ⟨htext, hrest⟩ := Prod.mk.inj (Option.some.inj hread')
  exact ⟨Option.some.inj htext, hrest⟩

end JsonText

namespace Report

/-- The document of a namespace begins with its name and version. -/
theorem exists_pretty_namespaceDatum (output : NamespaceOutput) :
    ∃ rest, (Json.pretty 0 (namespaceDatum output)).toList =
      "\x7b\n  \"name\": ".toList ++ ((JsonText.write output.key.name).toList ++
        (",\n  \"version\": ".toList ++ ((JsonText.write output.key.version).toList ++ rest))) := by
  have hname : (JsonText.write "name").toList = "\"name\"".toList := by decide
  have hversion : (JsonText.write "version").toList = "\"version\"".toList := by decide
  simp only [namespaceDatum, Json.pretty, Json.prettyMembers, Json.block, List.isEmpty_cons, Bool.false_eq_true,
    if_false, String.intercalate_cons_cons, String.toList_append, List.append_assoc, hname, hversion]
  exact ⟨_, rfl⟩

/-- Namespaces with the same document have the same key. -/
theorem key_eq_of_pretty {output other : NamespaceOutput}
    (h : Json.pretty 0 (namespaceDatum output) = Json.pretty 0 (namespaceDatum other)) : output.key = other.key := by
  obtain ⟨rest, hrest⟩ := exists_pretty_namespaceDatum output
  obtain ⟨rest', hrest'⟩ := exists_pretty_namespaceDatum other
  have htext := congrArg String.toList h
  rw [hrest, hrest'] at htext
  obtain ⟨hname, htext⟩ := JsonText.write_append_inj (List.append_cancel_left htext)
  obtain ⟨hversion, -⟩ := JsonText.write_append_inj (List.append_cancel_left htext)
  obtain ⟨⟨name, version⟩, library, declarations⟩ := output
  exact congrArg₂ NamespaceKey.mk hname hversion

/-- The summary is not the document of a namespace. -/
theorem pretty_summaryDatum_ne (report : Report) (output : NamespaceOutput) :
    Json.pretty 0 report.summaryDatum ≠ Json.pretty 0 (namespaceDatum output) := by
  have hkey : (JsonText.write "namespaces").toList = "\"namespaces\"".toList := by decide
  have hsummary : ∃ rest, (Json.pretty 0 report.summaryDatum).toList = "\x7b\n  \"names".toList ++ rest := by
    simp only [summaryDatum, Json.pretty, Json.prettyMembers, Json.block, List.isEmpty_cons, Bool.false_eq_true,
      if_false, String.intercalate_cons_cons, String.toList_append, List.append_assoc, hkey]
    exact ⟨_, rfl⟩
  obtain ⟨rest, hrest⟩ := hsummary
  obtain ⟨rest', hrest'⟩ := exists_pretty_namespaceDatum output
  intro h
  have htext := congrArg String.toList h
  rw [hrest, hrest'] at htext
  cases htext

end Report

end Interop
