import DocStore.Search

/-!
# Runs of programs

Work, tests and searches are programs over a state which the failing ones leave behind as well.
`run_bind` takes a run apart into its steps. `Triple` says how a run from one state ends, whether it
succeeds or fails.
-/

namespace DocStore

variable {ε ε' σ α β : Type}

theorem run_pure (a : α) (s : σ) : (pure a : ExceptT ε (StateM σ) α) s = (.ok a, s) := rfl

theorem run_bind (w : ExceptT ε (StateM σ) α) (f : α → ExceptT ε (StateM σ) β) (s : σ) :
    (w >>= f) s =
      match w s with
      | (.ok a, s') => f a s'
      | (.error e, s') => (.error e, s') := by
  simp only [bind, ExceptT.bind, ExceptT.mk, StateT.bind]
  rcases w s with ⟨_ | _, s'⟩ <;> rfl

theorem run_bind_ok {w : ExceptT ε (StateM σ) α} {f : α → ExceptT ε (StateM σ) β} {s s' : σ} {b : β}
    (h : (w >>= f) s = (.ok b, s')) : ∃ a mid, w s = (.ok a, mid) ∧ f a mid = (.ok b, s') := by
  rw [run_bind] at h
  rcases hrun : w s with ⟨e | a, mid⟩
  · rw [hrun] at h
    cases h
  · rw [hrun] at h
    exact ⟨a, mid, rfl, h⟩

theorem run_bind_error {w : ExceptT ε (StateM σ) α} {f : α → ExceptT ε (StateM σ) β} {s s' : σ} {e : ε}
    (h : (w >>= f) s = (.error e, s')) :
    w s = (.error e, s') ∨ ∃ a mid, w s = (.ok a, mid) ∧ f a mid = (.error e, s') := by
  rw [run_bind] at h
  rcases hrun : w s with ⟨e' | a, mid⟩
  · rw [hrun] at h
    cases h
    exact .inl rfl
  · rw [hrun] at h
    exact .inr ⟨a, mid, rfl, h⟩

theorem Except.bind_eq_ok {x : Except ε α} {f : α → Except ε β} {b : β} (h : x >>= f = .ok b) :
    ∃ a, x = .ok a ∧ f a = .ok b := by
  cases x with
  | error e => cases h
  | ok a => exact ⟨a, rfl, h⟩

theorem eq_error_of_map {f : α → β} {result : Except ε α} {e : ε} (h : result.map f = .error e) :
    result = .error e := by
  cases result with
  | error e' => exact congrArg _ (Except.error.inj h)
  | ok a => cases h

theorem run_get (s : σ) : (get : ExceptT ε (StateM σ) σ) s = (.ok s, s) := rfl

theorem run_set (s s' : σ) : (set s' : ExceptT ε (StateM σ) PUnit) s = (.ok ⟨⟩, s') := rfl

/-- The run from `s` succeeds as `post` says or fails as `fail` says. -/
def Triple (w : ExceptT ε (StateM σ) α) (s : σ) (post : α → σ → Prop) (fail : σ → Prop) : Prop :=
  match w s with
  | (.ok a, s') => post a s'
  | (.error _, s') => fail s'

namespace Triple

variable {w : ExceptT ε (StateM σ) α} {s s' : σ} {post post' : α → σ → Prop} {fail fail' : σ → Prop}

theorem pure {a : α} (h : post a s) : Triple (Pure.pure a : ExceptT ε (StateM σ) α) s post fail := h

theorem throw {e : ε} (h : fail s) :
    Triple (MonadExcept.throw e : ExceptT ε (StateM σ) α) s post fail := h

theorem of_run {a : α} (hrun : w s = (.ok a, s')) (h : post a s') : Triple w s post fail := by
  unfold Triple
  rw [hrun]
  exact h

theorem of_run_error {e : ε} (hrun : w s = (.error e, s')) (h : fail s') :
    Triple w s post fail := by
  unfold Triple
  rw [hrun]
  exact h

theorem post_of_run (h : Triple w s post fail) {a : α} (hrun : w s = (.ok a, s')) : post a s' := by
  unfold Triple at h
  rwa [hrun] at h

theorem fail_of_run (h : Triple w s post fail) {e : ε} (hrun : w s = (.error e, s')) : fail s' := by
  unfold Triple at h
  rwa [hrun] at h

theorem mono (h : Triple w s post fail) (hpost : ∀ a s', post a s' → post' a s')
    (hfail : ∀ s', fail s' → fail' s') : Triple w s post' fail' := by
  unfold Triple at h ⊢
  rcases hrun : w s with ⟨e | a, s'⟩
  · rw [hrun] at h
    exact hfail s' h
  · rw [hrun] at h
    exact hpost a s' h

theorem bind {f : α → ExceptT ε (StateM σ) β} {last : β → σ → Prop} (h : Triple w s post fail)
    (hf : ∀ a s', post a s' → Triple (f a) s' last fail) : Triple (w >>= f) s last fail := by
  unfold Triple at h
  unfold Triple
  rw [run_bind]
  rcases hrun : w s with ⟨e | a, s'⟩
  · rw [hrun] at h
    exact h
  · rw [hrun] at h
    exact hf a s' h

theorem bind_of_run {f : α → ExceptT ε (StateM σ) β} {last : β → σ → Prop} {a : α}
    (hrun : w s = (.ok a, s')) (h : Triple (f a) s' last fail) : Triple (w >>= f) s last fail := by
  unfold Triple at h ⊢
  rwa [run_bind, hrun]

theorem bind_of_run_error {f : α → ExceptT ε (StateM σ) β} {last : β → σ → Prop} {e : ε}
    (hrun : w s = (.error e, s')) (h : fail s') : Triple (w >>= f) s last fail := by
  unfold Triple
  rw [run_bind, hrun]
  exact h

theorem discard {last : PUnit → σ → Prop} (h : Triple w s post fail)
    (hpost : ∀ a s', post a s' → last ⟨⟩ s') :
    Triple (Functor.discard w : ExceptT ε (StateM σ) PUnit) s last fail := by
  have hbind : (Functor.discard w : ExceptT ε (StateM σ) PUnit) = w >>= fun _ => Pure.pure ⟨⟩ := rfl
  rw [hbind]
  exact h.bind fun a s' hs' => Triple.pure (hpost a s' hs')

theorem final (h : Triple w s post fail) {last : σ → Prop} (hpost : ∀ a s', post a s' → last s')
    (hfail : ∀ s', fail s' → last s') : last (w s).2 := by
  unfold Triple at h
  rcases hrun : w s with ⟨e | a, s'⟩
  · rw [hrun] at h
    exact hfail s' h
  · rw [hrun] at h
    exact hpost a s' h

end Triple

namespace Reading

theorem run_pure (a : α) (view : Data) (reads : List Bytes) :
    (pure a : Reading ε α) view reads = (.ok a, reads) := rfl

theorem run_bind (r : Reading ε α) (f : α → Reading ε β) (view : Data) (reads : List Bytes) :
    (r >>= f) view reads =
      match r view reads with
      | (.ok a, reads') => f a view reads'
      | (.error e, reads') => (.error e, reads') := by
  change (r view >>= fun a => f a view) reads = _
  rw [DocStore.run_bind]
  rcases r view reads with ⟨_ | _, reads'⟩ <;> rfl

end Reading

namespace Work

variable {s : Session} {post : α → Session → Prop} {fail : Session → Prop}

theorem triple_ofExcept {result : Except ε α} {f : α → Work ε β} {last : β → Session → Prop}
    (hok : ∀ a, result = .ok a → Triple (f a) s last fail) (herror : fail s) :
    Triple (ofExcept result >>= f) s last fail := by
  cases hresult : result with
  | error e => exact herror
  | ok a => exact hok a hresult

theorem adapt_ok {f : ε → ε'} {w : Work ε α} {a : α} {s' : Session}
    (h : adapt f w s = (.ok a, s')) : w s = (.ok a, s') := by
  unfold adapt at h
  rcases hrun : w s with ⟨_ | _, _⟩
  · rw [hrun] at h
    cases h
  · rw [hrun] at h
    cases h
    rfl

theorem triple_adapt {f : ε → ε'} {w : Work ε α} (h : Triple w s post fail) :
    Triple (adapt f w) s post fail := by
  unfold Triple at h
  unfold Triple adapt
  rcases hrun : w s with ⟨e | a, s'⟩
  · rw [hrun] at h
    exact h
  · rw [hrun] at h
    exact h

end Work

end DocStore
