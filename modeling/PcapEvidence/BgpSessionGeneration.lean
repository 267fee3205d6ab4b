import PcapEvidence.BgpSessionRun

/-!
# The generation of a session over its events

What an admitted event does to the journal, to the generation of the view and to its flags, in a
view that is neither closed nor in conflict.
-/

namespace PcapEvidence.Bgp.Session

open FiniteMap History

def Event.previous (event : Event) : Option ℕ :=
  match event.kind with
  | .reset previousGeneration _ => some previousGeneration
  | .protocolReset _ _ => some event.generation
  | _ => none

namespace SessionObserver

variable {m : Layout} {s : SessionObserver} {event : Event} {p : PreparedSessionEvent}

def Live (s : SessionObserver) : Prop :=
  ∀ view, s.view = some view → view.identityConflict = false ∧ view.closedByNotification = false

theorem Live.base (h : s.Live) (event : Event) :
    (s.base event).identityConflict = false ∧ (s.base event).closedByNotification = false := by
  cases hview : s.view with
  | none => simp [SessionObserver.base, hview, emptyView]
  | some view => simpa [SessionObserver.base, hview] using h view hview

theorem innerStep_frame {conflict : Bool} {status : ApplyStatus} {next : SessionObserver}
    (h : InnerStep s event conflict status next) :
    next.events = s.events ∧ next.recordIndex = s.recordIndex ∧ next.key = s.key ∧
      status ≠ .identicalReplay := by
  cases h with
  | flagged => exact ⟨rfl, rfl, rfl, by simp⟩
  | clean fresh unflagged step => exact ⟨rfl, rfl, rfl, by cases step <;> simp⟩

theorem commit_key (h : Prepared m s event p) : (s.commit p).key = s.key := by
  cases h with
  | inert => rfl
  | append => rfl
  | staged extraordinary step size published =>
    subst published
    exact (innerStep_frame step).2.2.1

theorem prepare_events (hinv : s.Invariant m) (h : s.prepare m event = .ok p) :
    (event ∈ s.events ∧ p.status = .identicalReplay ∧ s.commit p = s) ∨
      (event ∉ s.events ∧ p.status ≠ .identicalReplay ∧
        (s.commit p).events = s.events ++ [event]) := by
  obtain ⟨hkey, hp⟩ := prepare_prepared h
  by_cases hreplay : s.replays event = true
  · refine .inl ⟨(replays_iff hinv).1 hreplay, ?_⟩
    obtain ⟨u, -, h⟩ := bind_eq_ok.1 h
    rw [if_pos hreplay] at h
    cases h
    exact ⟨rfl, rfl⟩
  · refine .inr ⟨fun hmem => hreplay ((replays_iff hinv).2 hmem), ?_⟩
    cases hp with
    | inert replay => exact absurd replay hreplay
    | append ordinary charge word => exact ⟨by simp, rfl⟩
    | staged extraordinary step size published =>
      subst published
      obtain ⟨hevents, -, -, hstatus⟩ := innerStep_frame step
      refine ⟨hstatus, ?_⟩
      simp [SessionObserver.commit, pushEvent, hevents]

theorem mem_commit (hinv : s.Invariant m) (h : s.prepare m event = .ok p) :
    event ∈ (s.commit p).events ∧ s.events ⊆ (s.commit p).events := by
  obtain ⟨hmem, -, hsame⟩ | ⟨-, -, hevents⟩ := prepare_events hinv h
  · rw [hsame]
    exact ⟨hmem, List.Subset.refl _⟩
  · rw [hevents]
    exact ⟨by simp, List.subset_append_left _ _⟩

theorem prepare_conflict (hinv : s.Invariant m) (hlive : s.Live) (h : s.prepare m event = .ok p) :
    p.status = .identityConflict ↔
      event ∉ s.events ∧ ∃ old ∈ s.events, old.recordId = event.recordId := by
  have hfiled := hinv.filed event.recordId
  obtain ⟨hmem, hstatus, -⟩ | ⟨hnew, hstatus, -⟩ := prepare_events hinv h
  · simp [hmem, hstatus]
  · rw [← hfiled]
    simp only [hnew, not_false_eq_true, true_and]
    cases (prepare_prepared h).2 with
    | inert => simp at hstatus
    | append ordinary => simp [(ordinary_spec ordinary).1]
    | staged extraordinary step size published =>
      cases step with
      | flagged flag kept cause =>
        have hunflagged := (hlive.base event).1
        rw [base] at hunflagged
        simpa [hunflagged] using cause
      | clean fresh unflagged step =>
        rw [fresh]
        cases step <;> simp

theorem next_of_boundary (h : event.kind.isBoundary = false) : event.next = none := by
  cases hk : event.kind <;> simp [EventKind.isBoundary, hk] at h <;> simp [Event.next, hk]

theorem boundary_of_gap (h : event.kind.isGap = true) : event.kind.isBoundary = false := by
  cases hk : event.kind <;> simp [EventKind.isGap, hk] at h
  rfl

theorem cleanStep_applied {view next : SessionView} {status : ApplyStatus}
    (hflag : view.identityConflict = false) (hopen : view.closedByNotification = false)
    (hkind : event.kind ≠ .notification) (hgen : view.generation ≤ event.generation)
    (step : view.CleanStep event status next) :
    status = .applied ∧ next.identityConflict = false ∧ next.closedByNotification = false ∧
      next.generation = event.next.getD event.generation := by
  cases step with
  | historical older => omega
  | closed same h => simp [hopen] at h
  | restarted boundary advanced within next => exact ⟨rfl, rfl, rfl, by simp [next]; rfl⟩
  | gap same open' kind =>
    exact ⟨rfl, hflag, hopen, by simp [next_of_boundary (boundary_of_gap kind), same]⟩
  | unscoped same open' kind boundary direction =>
    rw [next_of_boundary boundary, Option.getD_none, same]
    unfold SessionView.applyUnscoped
    split
    · exact ⟨rfl, hflag, hopen, rfl⟩
    · exact ⟨rfl, hflag, hopen, rfl⟩
    · rename_i hk
      exact absurd hk hkind
    · exact ⟨rfl, hflag, hopen, rfl⟩
  | directed same open' kind boundary direction =>
    rw [next_of_boundary boundary, Option.getD_none, same]
    exact ⟨rfl, hflag, by simp [SessionView.applyDirected, hopen, hkind], rfl⟩

theorem prepare_step (hlive : s.Live) (h : s.prepare m event = .ok p)
    (hkind : event.kind ≠ .notification)
    (hgen : ∀ view, s.view = some view → view.generation ≤ event.generation) :
    p.status = .identicalReplay ∨
      (p.status = .identityConflict ∧ ∃ view, (s.commit p).view = some view ∧
        view.generation = (s.base event).generation) ∨
      (p.status = .applied ∧ (s.commit p).Live ∧ ∃ view, (s.commit p).view = some view ∧
        view.generation = event.next.getD event.generation) := by
  obtain ⟨hflag, hopen⟩ := hlive.base event
  have hbase : (s.base event).generation ≤ event.generation := by
    cases hview : s.view with
    | none => simp [base, hview, emptyView]
    | some view => simpa [base, hview] using hgen view hview
  cases (prepare_prepared h).2 with
  | inert => exact .inl rfl
  | append ordinary charge word =>
    obtain ⟨hnone, hmessage, view, d, hview, hd, hgeneration, -, -⟩ := ordinary_spec ordinary
    have hboundary : event.kind.isBoundary = false := by
      cases hk : event.kind <;> simp [isMessage, hk] at hmessage <;> rfl
    refine .inr (.inr ⟨rfl, ?_, witness event event.recordId view, ?_, ?_⟩)
    · intro view' hview'
      simp only [SessionObserver.commit, hview, Option.map_some, Option.some.injEq] at hview'
      rw [← hview']
      exact hlive view hview
    · simp [SessionObserver.commit, hview]
    · simp [next_of_boundary hboundary, hgeneration, witness]
  | staged extraordinary step size published =>
    subst published
    cases step with
    | flagged flag kept => exact .inr (.inl ⟨rfl, _, rfl, kept⟩)
    | clean fresh unflagged clean =>
      obtain ⟨hstatus, hflag', hopen', hgen'⟩ :=
        cleanStep_applied hflag hopen hkind hbase clean
      refine .inr (.inr ⟨hstatus, fun view hview => ?_, _, rfl, hgen'⟩)
      obtain rfl := Option.some.inj hview
      exact ⟨hflag', hopen'⟩

end SessionObserver
end PcapEvidence.Bgp.Session
