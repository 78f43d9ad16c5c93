import InventorySearch.Proofs.Store.Clock

set_option autoImplicit false

/-!
# Closing

A store that was closed replies to every step as a closed one, and keeps what it
holds until it is opened again. A pause in which a store of the current version
is closed and opened again cannot be told from no pause.
-/
namespace InventorySearch.Store.Session

def Ends (st : Step) : Prop := st = .close ∨ st = .shutdown

def closedReply : Step → Reply
  | .call _ => .failed .closed Failure.closed.message
  | .checkpoint => .done
  | .close => .done
  | .shutdown => .stopped
  | _ => serviceFailure .closed

/-! ## Closed stores -/

theorem step_closed (contents : Database) (now : Int) {st : Step} (h : st ≠ .reopen) :
    step ⟨contents, .closed⟩ now st = (closedReply st, ⟨contents, .closed⟩) := by
  cases st with
  | reopen => exact absurd rfl h
  | _ => rfl

theorem run_closed (contents : Database) {steps : List (Int × Step)}
    (h : ∀ p ∈ steps, p.2 ≠ .reopen) :
    replies ⟨contents, .closed⟩ steps = steps.map (fun p => closedReply p.2) ∧
      after ⟨contents, .closed⟩ steps = ⟨contents, .closed⟩ := by
  induction steps with
  | nil => exact ⟨rfl, rfl⟩
  | cons p steps ih =>
    obtain ⟨hreplies, hafter⟩ := ih fun q hq => h q (List.mem_cons_of_mem _ hq)
    have hstep := step_closed contents p.1 (h p List.mem_cons_self)
    rw [replies, after, hstep, List.map_cons]
    exact ⟨congrArg (List.cons _) hreplies, hafter⟩

theorem step_ends {s : Session} (hthere : s.status ≠ .absent) (now : Int) {st : Step}
    (h : Ends st) : s.step now st = (closedReply st, ⟨s.contents, .closed⟩) := by
  obtain ⟨contents, status⟩ := s
  cases status with
  | absent => exact absurd rfl hthere
  | opened => rcases h with rfl | rfl <;> rfl
  | closed => rcases h with rfl | rfl <;> rfl

/-! ## Steps that leave the store -/

theorem step_call (s : Session) (now : Int) (call : Call) : (s.step now (.call call)).2 = s := by
  obtain ⟨contents, status⟩ := s
  cases status <;> rfl

theorem step_checkpoint (s : Session) (now : Int) : (s.step now .checkpoint).2 = s := by
  obtain ⟨contents, status⟩ := s
  cases status <;> rfl

theorem reopen_current {s : Session} (h : s.Reachable) (hsaid : s.contents.SaysVersion 2)
    (now : Int) : s.step now .reopen = (.done, ⟨s.contents, .opened⟩) := by
  have hstored := (Database.storedVersion?_eq_some_iff h.tracked).mpr hsaid
  change s.reopen now = _
  rw [reopen_eq, Database.opening_current hstored]

/-! ## Pauses -/

/-- Being checkpoints, and closings that are each followed by an opening. -/
inductive Pause : List (Int × Step) → Prop
  | nil : Pause []
  | checkpoint (now : Int) {rest : List (Int × Step)} (h : Pause rest) :
      Pause ((now, .checkpoint) :: rest)
  | reopened (now later : Int) {st : Step} (hends : Ends st) {rest : List (Int × Step)}
      (h : Pause rest) : Pause ((now, st) :: (later, .reopen) :: rest)

theorem Pause.after_eq {pause : List (Int × Step)} (hpause : Pause pause) {s : Session}
    (h : s.Reachable) (hopened : s.status = .opened) (hsaid : s.contents.SaysVersion 2) :
    s.after pause = s := by
  induction hpause with
  | nil => rfl
  | checkpoint now _ ih => rwa [after, step_checkpoint]
  | @reopened now later st hends rest _ ih =>
    have hclosed := step_ends (by rw [hopened]; decide) now hends
    have hreachable : Reachable ⟨s.contents, .closed⟩ := by
      have hnext := Reachable.step now st h
      rwa [hclosed] at hnext
    have hreopened := reopen_current hreachable hsaid later
    rw [after, after, hclosed, hreopened]
    change after ⟨s.contents, .opened⟩ rest = s
    rwa [← hopened]

/-- From where it is closed to where it is opened again, a store refuses to be asked or changed and
keeps its contents. Calls and checkpoints keep them too, and so does opening a store of the current
version, so pauses change no later reply. -/
theorem closed_until_reopened {begun : Int} {before : List (Int × Step)} {s : Session}
    (hs : (start begun).after before = s) :
    (∀ now ending later, s.status ≠ .absent → Ends ending → (∀ p ∈ later, p.2 ≠ .reopen) →
      s.replies ((now, ending) :: later) =
          closedReply ending :: later.map (fun p => closedReply p.2) ∧
        s.after ((now, ending) :: later) = ⟨s.contents, .closed⟩ ∧
        (s.contents.SaysVersion 2 → ∀ reopened,
          (s.after ((now, ending) :: later)).step reopened .reopen =
            (.done, ⟨s.contents, .opened⟩))) ∧
    (∀ now call, (s.step now (.call call)).2 = s) ∧
    (∀ now, (s.step now .checkpoint).2 = s) ∧
    (s.contents.SaysVersion 2 → ∀ now, s.step now .reopen = (.done, ⟨s.contents, .opened⟩)) ∧
    (s.status = .opened → s.contents.SaysVersion 2 → ∀ pause rest later, Pause pause →
      later.map Prod.snd = rest.map Prod.snd →
        (start begun).replies (before ++ rest) =
            (start begun).replies before ++ s.replies rest ∧
          (start begun).replies (before ++ pause ++ later) =
            (start begun).replies before ++ s.replies pause ++ s.replies rest) := by
  have hreachable : s.Reachable := reachable_iff.mpr ⟨begun, before, hs.symm⟩
  refine ⟨fun now ending later hthere hends hlater => ?_, s.step_call, s.step_checkpoint,
    reopen_current hreachable, fun hopened hsaid pause rest later hpause hlater => ⟨?_, ?_⟩⟩
  · have hclosed := step_ends hthere now hends
    obtain ⟨hreplies, hafter⟩ := run_closed s.contents hlater
    have hrest : s.after ((now, ending) :: later) = ⟨s.contents, .closed⟩ := by
      rw [after, hclosed, hafter]
    refine ⟨?_, hrest, fun hsaid reopened => ?_⟩
    · rw [replies, hclosed, hreplies]
    · have hlast := hreachable.after ((now, ending) :: later)
      rw [hrest] at hlast ⊢
      exact reopen_current hlast hsaid reopened
  · rw [replies_append, hs]
  · rw [replies_append, replies_append, after_append, hs,
      hpause.after_eq hreachable hopened hsaid, s.replies_eq_of_steps hlater]

/-! ## Two nodes, before and after a pause -/

def insertTwoNodes : Step :=
  .insert "nodes"
    [[("id", .integer 2), ("label", .text "core")], [("id", .integer 1), ("label", .text "core")]]

theorem replies_twoNodes :
    twoNodes.replies [(1, .close), (2, .call .categories)] =
        [.done, .failed .closed Failure.closed.message] ∧
      (start 0).replies
          ([(0, insertTwoNodes)] ++ [(1, .checkpoint), (2, .shutdown), (3, .reopen)] ++
            [(4, .count "nodes")]) =
        [.inserted 2] ++ twoNodes.replies [(1, .checkpoint), (2, .shutdown), (3, .reopen)] ++
          [.counted 2] := by
  have hs : (start 0).after [(0, insertTwoNodes)] = twoNodes := rfl
  have hsaid : twoNodes.contents.SaysVersion 2 := ⟨_, List.mem_cons_self, rfl, rfl⟩
  obtain ⟨hcloses, -, -, -, hpauses⟩ := closed_until_reopened hs
  obtain ⟨hclosed, -, -⟩ := hcloses 1 .close [(2, .call .categories)] (by decide) (.inl rfl)
    (by simp)
  have hpause : Pause [(1, .checkpoint), (2, .shutdown), (3, .reopen)] :=
    .checkpoint 1 (.reopened 2 3 (.inr rfl) .nil)
  obtain ⟨-, hpaused⟩ := hpauses rfl hsaid _ [(1, .count "nodes")] [(4, .count "nodes")] hpause rfl
  exact ⟨hclosed, hpaused⟩

end InventorySearch.Store.Session
