import SystemAtlas.Error
import SystemAtlas.Proofs.Outcome

/-! # Steps that fail

How a chain of steps can fail is told by how each of its steps can (`FailsAs.bind`), and how a run
over a list by how each step along it can, in the states that an invariant admits
(`FailsAs.foldlM`). -/

namespace SystemAtlas

variable {ε τ σ α β : Type} {P Q : ε → Prop}

/-- If something fails, then in a way that `P` holds of. -/
def FailsAs (P : ε → Prop) (x : Except ε α) : Prop := ∀ e, x = .error e → P e

namespace FailsAs

variable {x : Except ε α} {a : α} {e : ε}

theorem ok : FailsAs P (.ok a : Except ε α) := by
  intro e h
  cases h

theorem of_eq_ok (h : x = .ok a) : FailsAs P x := h ▸ ok

theorem error (h : P e) : FailsAs P (.error e : Except ε α) := by
  intro e' he
  exact Except.error.inj he ▸ h

theorem mono (h : FailsAs P x) (hPQ : ∀ e, P e → Q e) : FailsAs Q x :=
  fun e he => hPQ e (h e he)

theorem inl (h : FailsAs P x) : FailsAs (fun e => P e ∨ Q e) x := h.mono fun _ => .inl

theorem inr (h : FailsAs Q x) : FailsAs (fun e => P e ∨ Q e) x := h.mono fun _ => .inr

theorem bind {f : α → Except ε β} (hx : FailsAs P x) (hf : ∀ a, x = .ok a → FailsAs P (f a)) :
    FailsAs P (x >>= f) := by
  cases x with
  | ok a => exact hf a rfl
  | error e =>
    intro e' he
    cases he
    exact hx e rfl

theorem map {f : α → β} (hx : FailsAs P x) : FailsAs P (f <$> x) := by
  cases x with
  | ok a => exact ok
  | error e =>
    intro e' he
    cases he
    exact hx e rfl

theorem mapError {f : ε → τ} {Q : τ → Prop} (hx : FailsAs P x) (hf : ∀ e, P e → Q (f e)) :
    FailsAs Q (x.mapError f) := by
  cases x with
  | ok a => exact ok
  | error e => exact error (hf e (hx e rfl))

theorem mapM {f : α → Except ε β} {xs : List α} (h : ∀ x ∈ xs, FailsAs P (f x)) :
    FailsAs P (xs.mapM f) := by
  induction xs with
  | nil => exact ok
  | cons x xs ih =>
    rw [List.mapM_cons]
    refine (h x List.mem_cons_self).bind fun y _ => ?_
    exact (ih fun x hx => h x (List.mem_cons_of_mem _ hx)).bind fun ys _ => ok

theorem filterM {f : α → Except ε Bool} {xs : List α} (h : ∀ x ∈ xs, FailsAs P (f x)) :
    FailsAs P (xs.filterM f) := by
  have haux : ∀ ys, FailsAs P (xs.filterAuxM f ys) := by
    induction xs with
    | nil => exact fun ys => ok
    | cons x xs ih =>
      intro ys
      rw [List.filterAuxM]
      refine (h x List.mem_cons_self).bind fun b _ => ?_
      exact ih (fun x hx => h x (List.mem_cons_of_mem _ hx)) _
  rw [List.filterM]
  exact (haux []).bind fun ys _ => ok

/-- A run fails as its steps do, in states of the invariant `I`. -/
theorem foldlM {step : σ → α → Except ε σ} {I : σ → Prop} {xs : List α} {s : σ}
    (hI : ∀ s x t, x ∈ xs → I s → step s x = .ok t → I t)
    (hstep : ∀ s x, x ∈ xs → I s → FailsAs P (step s x)) (hs : I s) :
    FailsAs P (xs.foldlM step s) := by
  induction xs generalizing s with
  | nil => exact ok
  | cons x xs ih =>
    rw [List.foldlM_cons]
    refine (hstep s x List.mem_cons_self hs).bind fun t ht => ?_
    exact ih (fun s y t hy => hI s y t (List.mem_cons_of_mem _ hy))
      (fun s y hy => hstep s y (List.mem_cons_of_mem _ hy)) (hI s x t List.mem_cons_self hs ht)

theorem foldlM_of_forall {step : σ → α → Except ε σ} {xs : List α} {s : σ}
    (h : ∀ s, ∀ x ∈ xs, FailsAs P (step s x)) : FailsAs P (xs.foldlM step s) :=
  foldlM (I := fun _ => True) (fun _ _ _ _ _ _ => trivial) (fun s x hx _ => h s x hx) trivial

end FailsAs

theorem bind_eq_error_iff {x : Except ε α} {f : α → Except ε β} {e : ε} :
    x >>= f = .error e ↔ x = .error e ∨ ∃ a, x = .ok a ∧ f a = .error e := by
  cases x <;> simp [bind, Except.bind]

/-- A list is refused for the first of its elements that is. -/
theorem mapM_eq_error_iff {f : α → Except ε β} {xs : List α} {e : ε} : xs.mapM f = .error e ↔
    ∃ before x after, xs = before ++ x :: after ∧ (∀ y ∈ before, ∃ b, f y = .ok b) ∧
      f x = .error e := by
  induction xs with
  | nil => simp [pure, Except.pure]
  | cons y xs ih =>
    rw [List.mapM_cons, bind_eq_error_iff]
    constructor
    · rintro (hy | ⟨b, hb, h⟩)
      · exact ⟨[], y, xs, rfl, List.forall_mem_nil _, hy⟩
      · rcases bind_eq_error_iff.mp h with h | ⟨ys, -, h⟩
        · obtain ⟨before, x, after, rfl, hbefore, hx⟩ := ih.mp h
          exact ⟨y :: before, x, after, rfl, List.forall_mem_cons.mpr ⟨⟨b, hb⟩, hbefore⟩, hx⟩
        · cases h
    · rintro ⟨before, x, after, h, hbefore, hx⟩
      rcases List.cons_eq_append_iff.mp h with ⟨rfl, h⟩ | ⟨rest, rfl, rfl⟩
      · cases h
        exact .inl hx
      · obtain ⟨⟨b, hb⟩, hrest⟩ := List.forall_mem_cons.mp hbefore
        refine .inr ⟨b, hb, bind_eq_error_iff.mpr (.inl ?_)⟩
        exact ih.mpr ⟨rest, x, after, rfl, hrest, hx⟩

/-- A run fails at the first of its steps that does, in the state that those before it led to. -/
theorem Progress.exists_of_failure {step : σ → α → Except ε σ} {xs : List α} {s : σ} {e : ε}
    (h : (run step s xs).failure = some e) : ∃ before x after, xs = before ++ x :: after ∧
      before.foldlM step s = .ok (run step s xs).state ∧
        step (run step s xs).state x = .error e := by
  induction xs generalizing s with
  | nil => cases h
  | cons x xs ih =>
    rw [run] at h ⊢
    split at h
    · next t ht =>
      obtain ⟨before, y, after, rfl, hbefore, hy⟩ := ih h
      exact ⟨x :: before, y, after, rfl, foldlM_cons_eq_ok_iff.mpr ⟨t, ht, hbefore⟩, hy⟩
    · next f hf =>
      cases h
      exact ⟨[], x, xs, rfl, rfl, hf⟩

theorem Progress.result_eq_error {p : Progress ε σ} {e : ε} (h : p.failure = some e) :
    p.result = .error e := by
  rw [result, h]

/-! ## Build errors -/

namespace Failure

variable {f : Failure}

/-- A failure is a build error. -/
def IsBuild (f : Failure) : Prop := ∃ e, f = .build e

/-- A failure is a build error that tells the phase it arose in. -/
def IsPhased (f : Failure) : Prop := ∃ e, f = .build e ∧ e.phase.isSome = true

theorem isBuild_of (cause : Cause) (scope : List Text) : (Failure.of cause scope).IsBuild :=
  ⟨_, rfl⟩

theorem IsBuild.onBuild {g : BuildError → BuildError} (h : f.IsBuild) : (f.onBuild g).IsBuild := by
  obtain ⟨e, rfl⟩ := h
  exact ⟨g e, rfl⟩

theorem IsBuild.inPhase (h : f.IsBuild) (phase : Phase) : (f.inPhase phase).IsPhased := by
  obtain ⟨e, rfl⟩ := h
  refine ⟨_, rfl, ?_⟩
  cases hp : e.phase <;> simp [hp]

/-- What is no build error has neither a line nor a phase to take. -/
theorem onBuild_of_not_isBuild (h : ¬f.IsBuild) (g : BuildError → BuildError) :
    f.onBuild g = f := by
  cases f with
  | build e => exact absurd ⟨e, rfl⟩ h
  | _ => rfl

/-- A failure is a build error whose cause has a property. -/
def CausedBy (P : Cause → Prop) (f : Failure) : Prop := ∃ e, f = .build e ∧ P e.cause

section
variable {P Q : Cause → Prop} {cause : Cause}

theorem causedBy_of {scope : List Text} (h : P cause) : (Failure.of cause scope).CausedBy P :=
  ⟨_, rfl, h⟩

theorem CausedBy.isBuild (h : f.CausedBy P) : f.IsBuild := by
  obtain ⟨e, rfl, -⟩ := h
  exact ⟨e, rfl⟩

theorem CausedBy.annotate {scope : List Text} {line : Option Int} (h : f.CausedBy P) :
    (f.annotate scope line).CausedBy P := by
  obtain ⟨e, rfl, he⟩ := h
  exact ⟨_, rfl, he⟩

end

/-- A file that cannot be read is refused, unless the system gives no access to it. -/
theorem ofFile_cases (fault : Resource.FileFault) (refusal : Failure) :
    (∃ reason, fault = .inaccessible reason ∧ ofFile fault refusal = .inaccessible reason) ∨
      ofFile fault refusal = refusal := by
  cases fault with
  | inaccessible reason => exact .inl ⟨reason, rfl, rfl⟩
  | _ => exact .inr rfl

/-- A failure is that of a theme that cannot be loaded. -/
def IsThemeFailure (f : Failure) : Prop := ∃ e, f = .build e ∧ e.cause.kind = .themeLoadFailure

end Failure

namespace FailsAs

variable {P Q : Cause → Prop} {x : Except Failure α}

theorem isBuild (h : FailsAs (Failure.CausedBy P) x) : FailsAs Failure.IsBuild x :=
  h.mono fun _ => Failure.CausedBy.isBuild

theorem mono_cause (h : FailsAs (Failure.CausedBy P) x) (hPQ : ∀ c, P c → Q c) :
    FailsAs (Failure.CausedBy Q) x := by
  refine h.mono fun f hf => ?_
  obtain ⟨e, rfl, he⟩ := hf
  exact ⟨e, rfl, hPQ _ he⟩

end FailsAs

end SystemAtlas
