import Stencil.Op

/-!
# What operations do

`Op.result` is how an operation ends: its value or its failure, and the state it leaves. The lemmas
here say it of the ways in which operations are built, so that no later proof opens the monad.

An operation preserves a property of the state (`Op.Preserves`) if the property stays however it ends.
An operation that only looks (`Op.Looks`) is one whose answer hangs on a view of the state, and which
leaves the view as it is. What it does to the rest of the state (a file that is read for the first time,
say) does not matter.
-/

namespace Stencil

/-- Setting a part and getting it fit together. -/
structure Lens.Lawful {σ τ : Type} (l : Lens σ τ) : Prop where
  get_set : ∀ a s, l.get (l.set a s) = a
  set_set : ∀ a b s, l.set a (l.set b s) = l.set a s
  set_get : ∀ s, l.set (l.get s) s = s

theorem Lens.lawful_fst {σ τ : Type} : (Lens.fst : Lens (σ × τ) σ).Lawful :=
  ⟨fun _ _ => rfl, fun _ _ _ => rfl, fun _ => rfl⟩

theorem Lens.lawful_snd {σ τ : Type} : (Lens.snd : Lens (σ × τ) τ).Lawful :=
  ⟨fun _ _ => rfl, fun _ _ _ => rfl, fun _ => rfl⟩

namespace Op

variable {σ τ α β : Type}

/-- How an operation ends on a state. -/
def result (op : Op σ α) (s : σ) : Except Fault α × σ := op.run.run s

@[simp] theorem result_pure (a : α) (s : σ) : result (pure a : Op σ α) s = (.ok a, s) := rfl

@[simp] theorem result_fail (p : Problem) (s : σ) :
    result (fail p : Op σ α) s = (.error (.problem p), s) := rfl

theorem result_bind (x : Op σ α) (f : α → Op σ β) (s : σ) :
    result (x >>= f) s =
      match result x s with
      | (.ok a, s') => result (f a) s'
      | (.error e, s') => (.error e, s') := by
  unfold result ExceptT.run StateT.run
  simp only [bind, ExceptT.bind, ExceptT.mk, StateT.bind]
  cases (x s : Id (Except Fault α × σ)) with
  | mk r s' => cases r <;> rfl

theorem result_bind_of_ok {x : Op σ α} {f : α → Op σ β} {s s' : σ} {a : α}
    (h : result x s = (.ok a, s')) : result (x >>= f) s = result (f a) s' := by
  rw [result_bind, h]

theorem result_bind_of_error {x : Op σ α} {f : α → Op σ β} {s s' : σ} {e : Fault}
    (h : result x s = (.error e, s')) : result (x >>= f) s = (.error e, s') := by
  rw [result_bind, h]

theorem eq_of_result_pure {a b : α} {s s' : σ} (h : result (pure a : Op σ α) s = (.ok b, s')) :
    a = b ∧ s = s' :=
  have hpair := Prod.mk.inj h
  ⟨Except.ok.inj hpair.1, hpair.2⟩

/-- Two operations in turn succeed if both do. -/
theorem exists_of_result_bind_eq {x : Op σ α} {f : α → Op σ β} {s s'' : σ} {b : β}
    (h : result (x >>= f) s = (.ok b, s'')) :
    ∃ a s', result x s = (.ok a, s') ∧ result (f a) s' = (.ok b, s'') := by
  rcases hr : result x s with ⟨e | a, s'⟩
  · rw [result_bind_of_error hr] at h
    cases h
  · rw [result_bind_of_ok hr] at h
    exact ⟨a, s', rfl, h⟩

theorem exists_of_result_bind {x : Op σ α} {f : α → Op σ β} {s : σ} {b : β}
    (h : (result (x >>= f) s).1 = .ok b) :
    ∃ a s', result x s = (.ok a, s') ∧ (result (f a) s').1 = .ok b := by
  obtain ⟨a, s', hx, hf⟩ := exists_of_result_bind_eq (Prod.ext h rfl)
  exact ⟨a, s', hx, congrArg Prod.fst hf⟩

@[simp] theorem result_get (s : σ) : result (MonadState.get : Op σ σ) s = (.ok s, s) := rfl

@[simp] theorem result_modify (f : σ → σ) (s : σ) :
    result (modify f : Op σ PUnit) s = (.ok ⟨⟩, f s) := rfl

@[simp] theorem result_ofExcept_ok (a : α) (s : σ) :
    result (ofExcept (.ok a) : Op σ α) s = (.ok a, s) := rfl

@[simp] theorem result_ofExcept_error (e : Fault) (s : σ) :
    result (ofExcept (.error e) : Op σ α) s = (.error e, s) := rfl

theorem result_ofExcept (x : Except Fault α) (s : σ) : result (ofExcept x : Op σ α) s = (x, s) := by
  cases x <;> rfl

@[simp] theorem result_zoom (l : Lens τ σ) (op : Op σ α) (t : τ) :
    result (op.zoom l) t = ((result op (l.get t)).1, l.set (result op (l.get t)).2 t) := rfl

theorem result_zoom_fst {op : Op σ α} {s s' : σ} {r : Except Fault α} (h : result op s = (r, s'))
    (t : τ) : result (op.zoom Lens.fst) (s, t) = (r, s', t) := by
  rw [result_zoom, show result op (Lens.fst.get (s, t)) = _ from h]
  rfl

@[simp] theorem result_attempt (op : Op σ α) (s : σ) :
    result (attempt op) s = (.ok (result op s).1, (result op s).2) := by
  unfold attempt result ExceptT.run StateT.run
  simp only [tryCatch, tryCatchThe, MonadExceptOf.tryCatch, ExceptT.tryCatch, bind, ExceptT.bind,
    ExceptT.mk, StateT.bind]
  cases (op s : Id (Except Fault α × σ)) with
  | mk r s' => cases r <;> rfl

theorem result_requireKey (argument : String) {value : String} (h : value ≠ "") (s : σ) :
    result (requireKey argument value) s = (.ok (), s) := by
  have he : value.isEmpty = false := by
    rw [← Bool.not_eq_true, String.isEmpty_iff]
    exact h
  rw [requireKey, he]
  rfl

/-- Going through a list, where each step answers and leaves the state as it is. -/
theorem result_mapM {γ : Type} {f : α → Op σ β} {g : γ → α} {k : γ → β} {s : σ} {cs : List γ}
    (h : ∀ c ∈ cs, result (f (g c)) s = (.ok (k c), s)) :
    result ((cs.map g).mapM f) s = (.ok (cs.map k), s) := by
  induction cs with
  | nil => rfl
  | cons c cs ih =>
    rw [List.map_cons, List.mapM_cons, result_bind_of_ok (h c List.mem_cons_self),
      result_bind_of_ok (ih fun c' hc' => h c' (List.mem_cons_of_mem _ hc'))]
    rfl

/-- Two operations in turn that leave the state as it is. -/
theorem result_bind_same {x : Op σ α} {f : α → Op σ β} {r : Except Fault α}
    {g : α → Except Fault β} {s : σ} (hx : result x s = (r, s))
    (hf : ∀ a, result (f a) s = (g a, s)) : result (x >>= f) s = (r >>= g, s) := by
  cases r with
  | error e => exact result_bind_of_error hx
  | ok a => exact (result_bind_of_ok hx).trans (hf a)

/-- Going through a list, where each step leaves the state as it is. -/
theorem result_mapM_same {f : α → Op σ β} {g : α → Except Fault β} {s : σ}
    (h : ∀ a, result (f a) s = (g a, s)) (l : List α) : result (l.mapM f) s = (l.mapM g, s) := by
  induction l with
  | nil => rfl
  | cons a l ih =>
    rw [List.mapM_cons, List.mapM_cons]
    exact result_bind_same (h a) fun b => result_bind_same ih fun bs => rfl

/-! ### What is left behind -/

/-- What holds of the value and the state when an operation succeeds, and of the state when it fails. -/
def Leaves (op : Op σ α) (s : σ) (done : α → σ → Prop) (failed : σ → Prop) : Prop :=
  match result op s with
  | (.ok a, s') => done a s'
  | (.error _, s') => failed s'

/-- What holds of the state however the operation ends. -/
theorem leaves_of_snd {op : Op σ α} {s : σ} {left : σ → Prop} (h : left (result op s).2) :
    op.Leaves s (fun _ => left) left := by
  rw [Leaves]
  rcases hr : result op s with ⟨e | a, s'⟩ <;> rw [hr] at h
  · exact h
  · exact h

theorem Leaves.bind {x : Op σ α} {f : α → Op σ β} {s : σ} {mid : α → σ → Prop}
    {done : β → σ → Prop} {failed : σ → Prop} (hx : x.Leaves s mid failed)
    (hf : ∀ a s', mid a s' → (f a).Leaves s' done failed) : (x >>= f).Leaves s done failed := by
  rw [Leaves] at hx
  rcases hr : result x s with ⟨e | a, s'⟩ <;> rw [hr] at hx
  · rw [Leaves, result_bind_of_error hr]
    exact hx
  · rw [Leaves, result_bind_of_ok hr]
    exact hf a s' hx

/-- Something first that leaves the state as it is. -/
theorem Leaves.bind_same {x : Op σ α} {f : α → Op σ β} {s : σ} {done : β → σ → Prop}
    {failed : σ → Prop} (hx : x.Leaves s (fun _ s' => s' = s) fun s' => s' = s) (hs : failed s)
    (hf : ∀ a, (f a).Leaves s done failed) : (x >>= f).Leaves s done failed := by
  rw [Leaves] at hx
  rcases hr : result x s with ⟨e | a, s'⟩ <;> rw [hr] at hx <;> obtain rfl : s' = s := hx
  · rw [Leaves, result_bind_of_error hr]
    exact hs
  · rw [Leaves, result_bind_of_ok hr]
    exact hf a

theorem Leaves.imp {op : Op σ α} {s : σ} {done done' : α → σ → Prop} {failed failed' : σ → Prop}
    (h : op.Leaves s done failed) (hdone : ∀ a s', done a s' → done' a s')
    (hfailed : ∀ s', failed s' → failed' s') : op.Leaves s done' failed' := by
  rw [Leaves] at h ⊢
  rcases hr : result op s with ⟨e | a, s'⟩ <;> rw [hr] at h
  · exact hfailed s' h
  · exact hdone a s' h

/-! ### What operations preserve -/

section Preserves

variable {kept : σ → Prop}

/-- However the operation ends, a state with the property is followed by one with it. -/
def Preserves (kept : σ → Prop) (op : Op σ α) : Prop := ∀ s, kept s → kept (result op s).2

theorem preserves_pure (a : α) : Preserves kept (pure a) := fun _ h => h

theorem preserves_fail (p : Problem) : Preserves kept (fail p : Op σ α) := fun _ h => h

theorem preserves_throw (e : Fault) : Preserves kept (throw e : Op σ α) := fun _ h => h

theorem preserves_get : Preserves kept (MonadState.get : Op σ σ) := fun _ h => h

theorem preserves_modify {f : σ → σ} (h : ∀ s, kept s → kept (f s)) :
    Preserves kept (modify f : Op σ PUnit) := h

theorem preserves_ofExcept (x : Except Fault α) : Preserves kept (ofExcept x : Op σ α) := by
  cases x with
  | error e => exact preserves_throw e
  | ok a => exact preserves_pure a

theorem preserves_requireKey (argument value : String) : Preserves kept (requireKey argument value) := by
  rw [requireKey]
  split
  · exact preserves_fail _
  · exact preserves_pure ()

theorem preserves_true (op : Op σ α) : Preserves (fun _ => True) op := fun _ _ => trivial

theorem Preserves.bind {x : Op σ α} {f : α → Op σ β} (hx : Preserves kept x)
    (hf : ∀ a, Preserves kept (f a)) : Preserves kept (x >>= f) := by
  intro s hs
  have hmid := hx s hs
  rcases hr : result x s with ⟨e | a, s'⟩ <;> rw [hr] at hmid
  · rw [result_bind_of_error hr]
    exact hmid
  · rw [result_bind_of_ok hr]
    exact hf a s' hmid

theorem Preserves.attempt {op : Op σ α} (h : Preserves kept op) : Preserves kept (attempt op) := by
  intro s hs
  rw [result_attempt]
  exact h s hs

theorem preserves_mapM {f : α → Op σ β} (hf : ∀ a, Preserves kept (f a)) (l : List α) :
    Preserves kept (l.mapM f) := by
  induction l with
  | nil => exact preserves_pure []
  | cons a l ih =>
    rw [List.mapM_cons]
    exact (hf a).bind fun b => ih.bind fun bs => preserves_pure (b :: bs)

/-- An operation on the first part of a state. -/
theorem Preserves.zoom_fst {op : Op σ α} (h : Preserves kept op) :
    Preserves (fun t : σ × τ => kept t.1) (op.zoom Lens.fst) := fun t ht => h t.1 ht

end Preserves

/-! ### Operations that only look -/

variable {ν κ : Type} {view : σ → ν} {kept : σ → κ}

/-- The answer of an operation hangs on the view alone; the view and what is to be kept stay. -/
structure Looks (view : σ → ν) (kept : σ → κ) (op : Op σ α) : Prop where
  answer : ∀ {s t}, view s = view t → (result op s).1 = (result op t).1
  view_eq : ∀ s, view (result op s).2 = view s
  kept_eq : ∀ s, kept (result op s).2 = kept s

theorem looks_pure (a : α) : Looks view kept (pure a) := ⟨fun _ => rfl, fun _ => rfl, fun _ => rfl⟩

theorem looks_fail (p : Problem) : Looks view kept (fail p : Op σ α) :=
  ⟨fun _ => rfl, fun _ => rfl, fun _ => rfl⟩

theorem looks_ofExcept (x : Except Fault α) : Looks view kept (ofExcept x : Op σ α) := by
  cases x <;> exact ⟨fun _ => rfl, fun _ => rfl, fun _ => rfl⟩

theorem looks_of_result {op : Op σ α} {f : ν → Except Fault α}
    (h : ∀ s, result op s = (f (view s), s)) : Looks view kept op :=
  ⟨fun hv => by rw [h, h, hv], fun s => by rw [h], fun s => by rw [h]⟩

theorem looks_requireKey (argument value : String) :
    Looks view kept (requireKey argument value : Op σ Unit) := by
  unfold requireKey
  split
  · exact looks_fail _
  · exact looks_pure ()

theorem looks_get : Looks id kept (MonadState.get : Op σ σ) :=
  ⟨fun h => congrArg Except.ok h, fun _ => rfl, fun _ => rfl⟩

/-- Only a view of the state is used. -/
theorem looks_get_bind {f : ν → Op σ α} (hf : ∀ v, Looks view kept (f v)) :
    Looks view kept (MonadState.get >>= fun s => f (view s)) :=
  ⟨fun {s t} h => by
    show (result (f (view s)) s).1 = (result (f (view t)) t).1
    rw [h]
    exact (hf _).answer h, fun s => (hf (view s)).view_eq s, fun s => (hf (view s)).kept_eq s⟩

theorem Looks.bind {x : Op σ α} {f : α → Op σ β} (hx : Looks view kept x)
    (hf : ∀ a, Looks view kept (f a)) : Looks view kept (x >>= f) := by
  have hstate : ∀ s, (result (x >>= f) s).2 = (result x s).2 ∨
      ∃ a, (result (x >>= f) s) = result (f a) (result x s).2 := by
    intro s
    rw [result_bind]
    rcases hr : result x s with ⟨_ | a, s'⟩
    · exact .inl rfl
    · exact .inr ⟨a, rfl⟩
  constructor
  · intro s t h
    have ha := hx.answer h
    have hs := hx.view_eq s
    have ht := hx.view_eq t
    rw [result_bind, result_bind]
    rcases hrs : result x s with ⟨_ | a, s'⟩ <;> rcases hrt : result x t with ⟨_ | b, t'⟩ <;>
      simp only [hrs, hrt] at ha hs ht ⊢
    · simpa using ha
    · simp at ha
    · simp at ha
    · obtain rfl : a = b := by simpa using ha
      exact (hf a).answer (hs.trans (h.trans ht.symm))
  · intro s
    rcases hstate s with h | ⟨a, h⟩
    · rw [h, hx.view_eq]
    · rw [h, (hf a).view_eq, hx.view_eq]
  · intro s
    rcases hstate s with h | ⟨a, h⟩
    · rw [h, hx.kept_eq]
    · rw [h, (hf a).kept_eq, hx.kept_eq]

/-- The answer to two operations in turn that only look. -/
theorem Looks.answer_bind {x : Op σ α} {f : α → Op σ β} (hx : Looks view kept x)
    (hf : ∀ a, Looks view kept (f a)) (s : σ) :
    (result (x >>= f) s).1 = (result x s).1 >>= fun a => (result (f a) s).1 := by
  have hv := hx.view_eq s
  rcases hr : result x s with ⟨e | a, s'⟩ <;> rw [hr] at hv
  · rw [result_bind_of_error hr]
    rfl
  · rw [result_bind_of_ok hr, (hf a).answer hv]
    rfl

theorem looks_mapM {f : α → Op σ β} (hf : ∀ a, Looks view kept (f a)) (l : List α) :
    Looks view kept (l.mapM f) := by
  induction l with
  | nil => exact looks_pure []
  | cons a l ih =>
    rw [List.mapM_cons]
    exact (hf a).bind fun b => ih.bind fun bs => looks_pure (b :: bs)

/-- The answer to going through a list with an operation that only looks. -/
theorem Looks.answer_mapM {f : α → Op σ β} (hf : ∀ a, Looks view kept (f a)) (l : List α) (s : σ) :
    (result (l.mapM f) s).1 = l.mapM fun a => (result (f a) s).1 := by
  induction l with
  | nil => rfl
  | cons a l ih =>
    rw [List.mapM_cons, List.mapM_cons,
      (hf a).answer_bind fun b => (looks_mapM hf l).bind fun bs => looks_pure (b :: bs)]
    refine congrArg _ (funext fun b => ?_)
    rw [(looks_mapM hf l).answer_bind fun bs => looks_pure (b :: bs), ih]
    rfl

/-- Looking at a part leaves what lies beside it. -/
theorem Looks.zoom {ρ : Type} {op : Op σ α} (h : Looks view (fun _ => ()) op) {l : Lens ρ σ}
    (hl : l.Lawful) {kept : ρ → κ} (hk : ∀ s t, kept (l.set s t) = kept t) :
    Looks (fun t => view (l.get t)) kept (op.zoom l) := by
  refine ⟨fun hv => ?_, fun t => ?_, fun t => ?_⟩
  · rw [result_zoom, result_zoom]
    exact h.answer hv
  · rw [result_zoom]
    simp only [hl.get_set]
    exact h.view_eq _
  · rw [result_zoom]
    exact hk _ t

/-- What is kept may count as part of the view. -/
theorem Looks.beside {ξ : Type} {op : Op σ α} {extra : σ → ξ}
    (h : Looks view (fun s => (extra s, kept s)) op) : Looks (fun s => (view s, extra s)) kept op where
  answer hv := h.answer (Prod.mk.inj hv).1
  view_eq s := Prod.ext (h.view_eq s) (Prod.mk.inj (h.kept_eq s)).1
  kept_eq s := (Prod.mk.inj (h.kept_eq s)).2

/-- An operation that only looks leaves the state as it is if the view and what is kept make it up. -/
theorem Looks.result_eq {op : Op σ α} (h : Looks view kept op)
    (hs : ∀ s t, view s = view t → kept s = kept t → s = t) (s : σ) :
    result op s = ((result op s).1, s) :=
  Prod.ext rfl (hs _ _ (h.view_eq s) (h.kept_eq s))

end Op

end Stencil
