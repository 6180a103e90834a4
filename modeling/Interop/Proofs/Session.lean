import Interop.Proofs.Growth
import Interop.Proofs.Schedule

/-! Sessions. A graph is registered to, linked, asked for single references and generated from, in any
order, while one memo keeps what was decided. A kept decision was taken at some moment of the session; it
is what would be decided now, unless it was taken for a repository that was not linked, and an alias of an
include, bound since then, replaces the spelling. Main statement: `session_kept`. -/

namespace Interop

open Relation

/-- A graph in use, with the decisions that are kept for its references. -/
structure GraphSession where
  graph : Graph := {}
  memo : Memo := {}

namespace GraphSession

/-- What can be done next: changing the graph, deciding a declared reference once, generating. -/
inductive Step : GraphSession → GraphSession → Prop
  | call {g : Graph} {m : Memo} (call : GraphCall) : Step ⟨g, m⟩ ⟨(call.apply g).2, m⟩
  | resolve {g : Graph} {m : Memo} {site : Site} {reference : TypeReference} :
      g.referenceAt? site = some reference → Step ⟨g, m⟩ ⟨g, ((g.resolve site reference).run.run m).2⟩
  | generate {g : Graph} {options : Options} {m left : Memo} {report : Logged RunError Report} :
      g.Generates options m report left → Step ⟨g, m⟩ ⟨g, left⟩

/-- Doing so any number of times. -/
abbrev Continues : GraphSession → GraphSession → Prop := ReflTransGen Step

/-- The sessions that begin with nothing. -/
abbrev Reached (s : GraphSession) : Prop := Continues {} s

/-- A decision was taken at an earlier moment of a session, for a repository that was not linked, and its
spelling is replaced now. -/
def Overtaken (s : GraphSession) (site : Site) (reference : TypeReference) : Prop :=
  ∃ earlier, Reached earlier ∧ Continues earlier s ∧ site.repository ∉ earlier.graph.buildOrder ∧
    earlier.graph.Overtakes s.graph site.repository reference

variable {s s' : GraphSession} {site : Site} {reference : TypeReference} {d : DecidedType}

theorem Step.exists_after (h : Step s s') : ∃ calls, s'.graph = s.graph.after calls := by
  cases h with
  | call call => exact ⟨[call], rfl⟩
  | resolve => exact ⟨[], rfl⟩
  | generate => exact ⟨[], rfl⟩

theorem Step.adds (h : Step s s') : s.graph.Adds s.memo s'.memo := by
  cases h with
  | @call g m => exact .refl g m
  | @resolve g m site reference hreference =>
      rw [run_resolve]
      cases m.get? site with
      | some found => exact .refl g m
      | none =>
          cases hfresh : g.decide site.repository reference with
          | error fault => exact .refl g m
          | ok fresh => exact .keep m hreference hfresh
  | generate hgenerates =>
      obtain ⟨outputs, heach, -⟩ := hgenerates
      exact heach.adds

theorem Continues.exists_after (h : Continues s s') : ∃ calls, s'.graph = s.graph.after calls := by
  induction h with
  | refl => exact ⟨[], rfl⟩
  | tail _ hstep ih =>
      obtain ⟨calls, hcalls⟩ := ih
      obtain ⟨more, hmore⟩ := hstep.exists_after
      refine ⟨calls ++ more, ?_⟩
      rw [hmore, hcalls, Graph.after, Graph.after, Graph.after, List.foldl_append]

/-- A kept decision stays kept. -/
theorem Continues.get?_eq_some (h : Continues s s') (hkept : s.memo.get? site = some d) :
    s'.memo.get? site = some d := by
  induction h with
  | refl => exact hkept
  | tail _ hstep ih => exact hstep.adds.stays site d ih

theorem Reached.exists_consistent (h : Reached s) : ∃ h : History, h.Consistent ∧ h.graph = s.graph := by
  obtain ⟨calls, hcalls⟩ := Continues.exists_after h
  have hobtained : Obtained s.graph := hcalls ▸ Obtained.empty.after calls
  exact hobtained.exists_consistent

/-- A kept decision was taken afresh at some moment. -/
theorem Reached.exists_decided (h : Reached s) (hkept : s.memo.get? site = some d) :
    ∃ earlier reference, Reached earlier ∧ Continues earlier s ∧
      earlier.graph.referenceAt? site = some reference ∧
      earlier.graph.decide site.repository reference = .ok d := by
  induction h with
  | refl => simp [Memo.get?] at hkept
  | @tail s s' hrun hstep ih =>
      rcases hstep.adds.fresh site d hkept with hkept | ⟨reference, hreference, hd⟩
      · obtain ⟨earlier, reference, hearlier, hcontinues, hdecided⟩ := ih hkept
        exact ⟨earlier, reference, hearlier, hcontinues.tail hstep, hdecided⟩
      · exact ⟨s, reference, hrun, .single hstep, hreference, hd⟩

/-- What was decided at an earlier moment of a session is what would be decided now, unless it is
overtaken. -/
theorem Reached.decide_eq_ok (h : Reached s) (hcontinues : Continues s s')
    (hreference : s.graph.referenceAt? site = some reference)
    (hd : s.graph.decide site.repository reference = .ok d) :
    s'.graph.referenceAt? site = some reference ∧
      (s'.graph.decide site.repository reference = .ok d ∨
        site.repository ∉ s.graph.buildOrder ∧ s.graph.Overtakes s'.graph site.repository reference) := by
  obtain ⟨history, hh, hgraph⟩ := h.exists_consistent
  obtain ⟨calls, hcalls⟩ := hcontinues.exists_after
  rw [← hgraph, ← History.graph_foldl] at hcalls
  rw [← hgraph] at hreference hd ⊢
  rw [hcalls]
  obtain ⟨r, hr, -⟩ := Option.bind_eq_some_iff.mp hreference
  exact ⟨(History.grows_foldl hh calls).referenceAt?_eq_some hreference, History.decide_foldl hh calls hr hd⟩

end GraphSession

/-- Whatever is registered, linked, decided and generated, in whatever order: a kept decision for a declared
reference was taken at some moment, as it was taken then, and stays kept; it is what would be decided now,
unless its repository was not linked at that moment and its spelling has been overtaken since. Deciding once
gives what would be decided now under the same condition, and keeps nothing if that is a fault. -/
theorem session_kept {s : GraphSession} (hs : s.Reached) {site : Site} {reference : TypeReference}
    (hreference : s.graph.referenceAt? site = some reference) :
    (∀ d, s.memo.get? site = some d →
      (∃ earlier : GraphSession, earlier.Reached ∧ earlier.Continues s ∧
        earlier.graph.decide site.repository reference = .ok d) ∧
      (∀ later, s.Continues later → later.memo.get? site = some d) ∧
      (s.graph.decide site.repository reference = .ok d ∨ s.Overtaken site reference)) ∧
    (((s.graph.resolve site reference).run.run s.memo).1 = s.graph.decide site.repository reference ∨
      s.Overtaken site reference) ∧
    ∀ fault, s.graph.decide site.repository reference = .error fault → s.memo.get? site = none →
      (s.graph.resolve site reference).run.run s.memo = (.error fault, s.memo) := by
  have hkept : ∀ d, s.memo.get? site = some d →
      (∃ earlier : GraphSession, earlier.Reached ∧ earlier.Continues s ∧
        earlier.graph.decide site.repository reference = .ok d) ∧
      (s.graph.decide site.repository reference = .ok d ∨ s.Overtaken site reference) := by
    intro d hget
    obtain ⟨earlier, reference', hearlier, hcontinues, hreference', hd⟩ := hs.exists_decided hget
    obtain ⟨hnow, hdecided⟩ := hearlier.decide_eq_ok hcontinues hreference' hd
    obtain rfl : reference' = reference := Option.some.inj (hnow.symm.trans hreference)
    refine ⟨⟨earlier, hearlier, hcontinues, hd⟩, hdecided.imp_right ?_⟩
    rintro ⟨hunlinked, hovertakes⟩
    exact ⟨earlier, hearlier, hcontinues, hunlinked, hovertakes⟩
  refine ⟨fun d hget => ⟨(hkept d hget).1, fun later hlater => hlater.get?_eq_some hget, (hkept d hget).2⟩,
    ?_, fun fault hfault hget => ?_⟩
  · rw [run_resolve]
    cases hget : s.memo.get? site with
    | some d => exact (hkept d hget).2.imp_left Eq.symm
    | none =>
        left
        cases s.graph.decide site.repository reference <;> rfl
  · rw [run_resolve, hget, hfault]

namespace Sample

/-- `App` has a record `Pid` of its own, and a function whose parameter is spelled as `GLib` spells its
alias `Pid`. -/
def app : Description where
  includes := [{ name := some "GLib", version := some "2.0" }]
  namespaceInfo := {
    name := some "App", version := some "2.0"
    records := [{ name := some "Pid", ctype := some "AppPid" }]
    functions := [{
      name := some "wait", cIdentifier := some "app_wait"
      parameters := [{
        name := some "pid", transferOwnership := some "none"
        type := some { name := some "Pid", ctype := some "GPid" } }] }] }

/-- `App` and `GLib` before they are linked. -/
def unlinkedApp : Graph := ({} : Graph).after [.register app, .register glib]

def linkedApp : Graph := unlinkedApp.after [.link]

def pidSite : Site := ⟨⟨0⟩, .callable .free .function 0, .parameter 0⟩

def pidReference : TypeReference := .scalar ⟨some "Pid", some (.ofString "GPid")⟩ .parameter

set_option maxRecDepth 4000 in
theorem referenceAt?_unlinkedApp : unlinkedApp.referenceAt? pidSite = some pidReference := by cbv

set_option maxRecDepth 4000 in
theorem referenceAt?_linkedApp : linkedApp.referenceAt? pidSite = some pidReference := by cbv

set_option maxRecDepth 4000 in
theorem decide_unlinkedApp :
    unlinkedApp.decide ⟨0⟩ pidReference = .ok (.of (.symbol ⟨⟨0⟩, .record, 0⟩)) := by cbv

set_option maxRecDepth 4000 in
theorem decide_linkedApp :
    linkedApp.decide ⟨0⟩ pidReference = .ok (.of (.primitive .i32)) := by cbv

/-- The parameter is decided first, then the graph is linked. -/
def eager : GraphSession := ⟨linkedApp, ((unlinkedApp.resolve pidSite pidReference).run.run {}).2⟩

theorem reached_eager : eager.Reached := by
  have hregistered : GraphSession.Continues {} ⟨unlinkedApp, {}⟩ :=
    (ReflTransGen.single (.call (.register app))).tail (.call (.register glib))
  exact (hregistered.tail (.resolve referenceAt?_unlinkedApp)).tail (.call .link)

theorem get?_eager : eager.memo.get? pidSite = some (.of (.symbol ⟨⟨0⟩, .record, 0⟩)) := by
  have hnone : ({} : Memo).get? pidSite = none := by simp [Memo.get?]
  rw [eager, run_resolve, hnone, pidSite, decide_unlinkedApp]
  exact (Memo.get?_keep _ _ _ _).trans (if_pos ⟨rfl, hnone⟩)

end Sample

open Sample in
theorem session_kept_eager : eager.Overtaken pidSite pidReference := by
  have hkept := (session_kept reached_eager referenceAt?_linkedApp).1 _ get?_eager
  refine hkept.2.2.resolve_left ?_
  rw [eager, pidSite, decide_linkedApp]
  decide

open Sample in
/-- A decision that is taken before its repository is linked need not be final. -/
theorem stale_eager :
    eager.Reached ∧ eager.graph.referenceAt? pidSite = some pidReference ∧
    eager.memo.get? pidSite = some (.of (.symbol ⟨⟨0⟩, .record, 0⟩)) ∧
    ((eager.graph.resolve pidSite pidReference).run.run eager.memo).1 =
      .ok (.of (.symbol ⟨⟨0⟩, .record, 0⟩)) ∧
    eager.graph.decide pidSite.repository pidReference = .ok (.of (.primitive .i32)) := by
  refine ⟨reached_eager, referenceAt?_linkedApp, get?_eager, ?_, decide_linkedApp⟩
  rw [run_resolve, get?_eager]

end Interop
