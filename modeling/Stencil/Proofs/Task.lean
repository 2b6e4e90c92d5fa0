import Mathlib.Data.List.Basic
import Stencil.Proofs.Op
import Stencil.Task

/-!
# Tasks alone and among others

What comes of a task that nobody interferes with is found from its parts (`alone_bind`). So it can be
compared, part by part, with an operation on what the state shows (`Task.Carries`).

For a task among others there is a discipline: an invariant of the state, and a relation that says what
the steps of all tasks may do to the state. A task keeps the discipline (`Task.Keeps`) if each of its
steps does, in whatever state the others have left by then, and if what it gives in the end is as it
should be. If all tasks of a crew keep the discipline, they do so on every schedule (`Crew.Keeps.run`).

What one task does of itself, whatever state it finds, is said by `Task.Only`: each of its steps is as a
relation allows. A task that only looks leaves the state as it is.
-/

namespace Stencil

variable {σ α β γ : Type}

namespace Task

/-! ### Laws -/

protected theorem bind_pure (t : Task σ α) : t.bind (fun a => done (.ok a)) = t := by
  induction t with
  | done r => cases r <;> rfl
  | step ready act next ih => exact congrArg (step ready act) (funext ih)

protected theorem bind_assoc (t : Task σ α) (f : α → Task σ β) (g : β → Task σ γ) :
    (t.bind f).bind g = t.bind fun a => (f a).bind g := by
  induction t with
  | done r => cases r <;> rfl
  | step ready act next ih => exact congrArg (step ready act) (funext ih)

instance : LawfulMonad (Task σ) :=
  LawfulMonad.mk' (Task σ) Task.bind_pure (fun _ _ => rfl) Task.bind_assoc

/-! ### Alone -/

variable {t : Task σ α} {s s' : σ}

theorem alone_bind (t : Task σ α) (f : α → Task σ β) (s : σ) : (t >>= f).alone s =
    (t.alone s).bind fun p => match p with
      | (.ok a, s') => (f a).alone s'
      | (.error e, s') => some (.error e, s') := by
  show (t.bind f).alone s = _
  induction t generalizing s with
  | done r => cases r <;> rfl
  | step ready act next ih =>
    rw [bind, alone, alone]
    split
    · exact ih s (act s)
    · rfl

theorem alone_bind_of_ok {f : α → Task σ β} {a : α} (h : t.alone s = some (.ok a, s')) :
    (t >>= f).alone s = (f a).alone s' := by
  rw [alone_bind, h]
  rfl

theorem alone_bind_of_error {f : α → Task σ β} {e : Fault} (h : t.alone s = some (.error e, s')) :
    (t >>= f).alone s = some (.error e, s') := by
  rw [alone_bind, h]
  rfl

theorem alone_attempt (t : Task σ α) (s : σ) :
    t.attempt.alone s = (t.alone s).map fun p => (.ok p.1, p.2) := by
  induction t generalizing s with
  | done r => rfl
  | step ready act next ih =>
    rw [attempt, alone, alone]
    split
    · exact ih s (act s)
    · rfl

theorem alone_once (op : Op σ α) (s : σ) : (once op).alone s = some (Op.result op s) := rfl

theorem alone_when (ready : σ → Bool) (op : Op σ α) (h : ready s = true) :
    (when ready op).alone s = some (Op.result op s) := if_pos h

/-- Two tasks in turn that leave the state as it is. -/
theorem alone_bind_same {f : α → Task σ β} {r : Except Fault α} {g : α → Except Fault β}
    (ht : t.alone s = some (r, s)) (hf : ∀ a, (f a).alone s = some (g a, s)) :
    (t >>= f).alone s = some (r >>= g, s) := by
  cases r with
  | error e => exact alone_bind_of_error ht
  | ok a => exact (alone_bind_of_ok ht).trans (hf a)

/-- Going through a list, where each step leaves the state as it is. -/
theorem alone_mapM_same {f : α → Task σ β} {g : α → Except Fault β}
    (h : ∀ a, (f a).alone s = some (g a, s)) (l : List α) :
    (l.mapM f).alone s = some (l.mapM g, s) := by
  induction l with
  | nil => rfl
  | cons a l ih =>
    rw [List.mapM_cons, List.mapM_cons]
    exact alone_bind_same (h a) fun b => alone_bind_same ih fun bs => rfl

theorem alone_foldlM_same {f : β → α → Task σ β} {g : β → α → Except Fault β}
    (h : ∀ b a, (f b a).alone s = some (g b a, s)) (l : List α) (b : β) :
    (l.foldlM f b).alone s = some (l.foldlM g b, s) := by
  induction l generalizing b with
  | nil => rfl
  | cons a l ih =>
    rw [List.foldlM_cons, List.foldlM_cons]
    exact alone_bind_same (h b a) ih

section Carries

variable {τ δ : Type} {idle : σ → Prop} {own : σ → τ}

/-- Alone, in a state that is idle, the task comes to its end and leaves the state idle. It does what an
operation does on what the state shows. -/
def Carries (idle : σ → Prop) (own : σ → τ) (t : Task σ α) (op : Op τ β) (g : α → β) : Prop :=
  ∀ s, idle s → ∃ r s', t.alone s = some (r, s') ∧ idle s' ∧ Op.result op (own s) = (r.map g, own s')

theorem carries_pure {a : α} {b : β} {g : α → β} (h : g a = b) :
    Carries idle own (pure a) (pure b) g := fun s hs => ⟨.ok a, s, rfl, hs, h ▸ rfl⟩

theorem carries_ofExcept (r : Except Fault α) : Carries idle own (ofExcept r) (Op.ofExcept r) id :=
  fun s hs => ⟨r, s, rfl, hs, by cases r <;> rfl⟩

theorem carries_error (e : Fault) (g : α → β) :
    Carries idle own (ofExcept (.error e) : Task σ α) (Op.ofExcept (.error e)) g :=
  fun s hs => ⟨.error e, s, rfl, hs, rfl⟩

/-- One after the other. -/
theorem Carries.bind {op : Op τ β} {g : α → β} {f : α → Task σ γ} {f' : β → Op τ δ} {g' : γ → δ}
    (h : Carries idle own t op g) (hf : ∀ a, Carries idle own (f a) (f' (g a)) g') :
    Carries idle own (t >>= f) (op >>= f') g' := by
  intro s hs
  obtain ⟨r, s₁, ht, hs₁, hop⟩ := h s hs
  cases r with
  | error e => exact ⟨.error e, s₁, alone_bind_of_error ht, hs₁, Op.result_bind_of_error hop⟩
  | ok a =>
    obtain ⟨r, s₂, hf, hs₂, hop'⟩ := hf a s₁ hs₁
    exact ⟨r, s₂, (alone_bind_of_ok ht).trans hf, hs₂, (Op.result_bind_of_ok hop).trans hop'⟩

/-- The task gives something else in the end, and says the same. -/
theorem Carries.map {op : Op τ β} {g : α → β} {f : α → γ} {g' : γ → β} (h : Carries idle own t op g)
    (hg : ∀ a, g' (f a) = g a) : Carries idle own (t >>= fun a => pure (f a)) op g' := by
  have hbind : Carries idle own (t >>= fun a => pure (f a)) (op >>= pure) g' :=
    h.bind fun a => carries_pure (hg a)
  rwa [bind_pure] at hbind

theorem carries_mapM {f : γ → Task σ α} {f' : γ → Op τ β} {g : α → β}
    (hf : ∀ c, Carries idle own (f c) (f' c) g) (cs : List γ) :
    Carries idle own (cs.mapM f) (cs.mapM f') (List.map g) := by
  induction cs with
  | nil => exact carries_pure rfl
  | cons c cs ih =>
    rw [List.mapM_cons, List.mapM_cons]
    exact (hf c).bind fun a => ih.bind fun as => carries_pure rfl

/-- A task and an operation that only look, and find the same. -/
theorem carries_look {op : Op τ α} {answer : τ → Except Fault α}
    (ht : ∀ s, t.alone s = some (answer (own s), s))
    (hop : ∀ x, Op.result op x = (answer x, x)) : Carries idle own t op id := by
  refine fun s hs => ⟨_, s, ht s, hs, (hop (own s)).trans ?_⟩
  cases answer (own s) <;> rfl

end Carries

end Task

/-! ### A discipline -/

/-- What holds of a state all the time, and what the steps of tasks may do to it. -/
structure Discipline (σ : Type) where
  inv : σ → Prop
  may : σ → σ → Prop
  refl : ∀ s, may s s
  trans : ∀ {s t u}, may s t → may t u → may s u

namespace Task

variable (D : Discipline σ)

/-- The task, which took its last step in a state, keeps a discipline; if it gives something in the end,
then something of which `Q` holds. -/
def Keeps (Q : α → σ → Prop) : Task σ α → σ → Prop
  | done r, s => ∀ a, r = .ok a → Q a s
  | step ready act next, s => ∀ s', D.may s s' → D.inv s' → ready s' = true →
    D.inv (act s') ∧ D.may s' (act s') ∧ Keeps Q (next s') (act s')

/-- What others do does not undo it. -/
def Stable (D : Discipline σ) (Q : σ → Prop) : Prop := ∀ s s', D.may s s' → Q s → Q s'

variable {D} {Q : α → σ → Prop} {P : β → σ → Prop} {t : Task σ α} {s s' : σ}

theorem Keeps.later (h : t.Keeps D Q s) (hQ : ∀ a, Stable D (Q a)) (hs : D.may s s') :
    t.Keeps D Q s' := by
  cases t with
  | done r => exact fun a ha => hQ a s s' hs (h a ha)
  | step ready act next => exact fun u hu => h u (D.trans hs hu)

theorem Keeps.imp {Q' : α → σ → Prop} (h : t.Keeps D Q s)
    (hQ : ∀ a s', D.may s s' → Q a s' → Q' a s') : t.Keeps D Q' s := by
  induction t generalizing s with
  | done r => exact fun a ha => hQ a s (D.refl s) (h a ha)
  | step ready act next ih =>
    intro u hu hinv hready
    obtain ⟨hi, hm, hnext⟩ := h u hu hinv hready
    exact ⟨hi, hm, ih u hnext fun a s' hs' => hQ a s' (D.trans hu (D.trans hm hs'))⟩

theorem keeps_pure {b : β} (h : P b s) : (pure b : Task σ β).Keeps D P s := fun _ hb =>
  Except.ok.inj hb ▸ h

theorem keeps_ofExcept {r : Except Fault β} (h : ∀ b, r = .ok b → P b s) :
    (ofExcept r).Keeps D P s := h

/-- A task goes on after another one. -/
theorem Keeps.bind {f : α → Task σ β} (h : t.Keeps D Q s)
    (hf : ∀ a s', D.may s s' → Q a s' → (f a).Keeps D P s') : (t >>= f).Keeps D P s := by
  show (t.bind f).Keeps D P s
  induction t generalizing s with
  | done r =>
    cases r with
    | error e => exact fun b hb => nomatch hb
    | ok a => exact hf a s (D.refl s) (h a rfl)
  | step ready act next ih =>
    intro u hu hinv hready
    obtain ⟨hi, hm, hnext⟩ := h u hu hinv hready
    exact ⟨hi, hm, ih u hnext fun a s' hs' => hf a s' (D.trans hu (D.trans hm hs'))⟩

theorem Keeps.attempt (h : t.Keeps D Q s) :
    t.attempt.Keeps D (fun r s' => ∀ a, r = .ok a → Q a s') s := by
  induction t generalizing s with
  | done r => exact fun r' hr' => Except.ok.inj hr' ▸ h
  | step ready act next ih =>
    intro u hu hinv hready
    obtain ⟨hi, hm, hnext⟩ := h u hu hinv hready
    exact ⟨hi, hm, ih u hnext⟩

/-- A step keeps the discipline if it does so in every later state that is ready. -/
theorem keeps_when {ready : σ → Bool} {op : Op σ β}
    (h : ∀ s', D.may s s' → D.inv s' → ready s' = true →
      D.inv (Op.result op s').2 ∧ D.may s' (Op.result op s').2 ∧
        ∀ b, (Op.result op s').1 = .ok b → P b (Op.result op s').2) :
    (when ready op).Keeps D P s := h

theorem keeps_once {op : Op σ β}
    (h : ∀ s', D.may s s' → D.inv s' → D.inv (Op.result op s').2 ∧ D.may s' (Op.result op s').2 ∧
      ∀ b, (Op.result op s').1 = .ok b → P b (Op.result op s').2) : (once op).Keeps D P s :=
  keeps_when fun s' hs' hinv _ => h s' hs' hinv

/-- A step that leaves the state as it is. -/
theorem keeps_look {op : Op σ β} (hop : ∀ s', (Op.result op s').2 = s')
    (h : ∀ s', D.may s s' → D.inv s' → ∀ b, (Op.result op s').1 = .ok b → P b s') :
    (once op).Keeps D P s :=
  keeps_once fun s' hs' hinv => by
    rw [hop s']
    exact ⟨hinv, D.refl s', h s' hs' hinv⟩

/-- Going through a list, one element after another. -/
theorem keeps_mapM {f : γ → Task σ β} {R : γ → β → σ → Prop} (hR : ∀ c b, Stable D (R c b))
    (hf : ∀ c s', D.may s s' → (f c).Keeps D (R c) s') (l : List γ) :
    (l.mapM f).Keeps D (fun bs s' => List.Forall₂ (fun c b => R c b s') l bs) s := by
  induction l generalizing s with
  | nil =>
    rw [List.mapM_nil]
    exact keeps_pure .nil
  | cons c l ih =>
    rw [List.mapM_cons]
    refine (hf c s (D.refl s)).bind fun b s₁ hs₁ hb => ?_
    refine (ih fun c s' hs' => hf c s' (D.trans hs₁ hs')).bind fun bs s₂ hs₂ hbs => ?_
    exact keeps_pure (.cons (hR c b s₁ s₂ hs₂ hb) hbs)

/-! ### What one task does -/

/-- Whatever state a step of the task finds, it changes it only as a relation allows. -/
def Only (G : σ → σ → Prop) : Task σ α → Prop
  | done _ => True
  | step ready act next => ∀ s, ready s = true → G s (act s) ∧ Only G (next s)

/-- The task leaves the state as it is. -/
abbrev Looks (t : Task σ α) : Prop := t.Only fun s s' => s' = s

variable {G : σ → σ → Prop}

theorem Only.mono {G' : σ → σ → Prop} (h : t.Only G) (hG : ∀ s s', G s s' → G' s s') : t.Only G' := by
  induction t with
  | done r => trivial
  | step ready act next ih => exact fun s hs => ⟨hG _ _ (h s hs).1, ih s (h s hs).2⟩

theorem only_pure (a : α) : (pure a : Task σ α).Only G := trivial

theorem only_ofExcept (r : Except Fault α) : (ofExcept r).Only G := trivial

theorem only_once {op : Op σ α} (h : ∀ s, G s (Op.result op s).2) : (once op).Only G :=
  fun s _ => ⟨h s, trivial⟩

theorem Only.bind {f : α → Task σ β} (h : t.Only G) (hf : ∀ a, (f a).Only G) : (t >>= f).Only G := by
  show (t.bind f).Only G
  induction t with
  | done r =>
    cases r with
    | error e => trivial
    | ok a => exact hf a
  | step ready act next ih => exact fun s hs => ⟨(h s hs).1, ih s (h s hs).2⟩

theorem only_mapM {f : γ → Task σ β} (hf : ∀ c, (f c).Only G) (l : List γ) : (l.mapM f).Only G := by
  induction l with
  | nil =>
    rw [List.mapM_nil]
    trivial
  | cons c l ih =>
    rw [List.mapM_cons]
    exact (hf c).bind fun _ => ih.bind fun _ => trivial

theorem only_foldlM {f : β → γ → Task σ β} (hf : ∀ b c, (f b c).Only G) (l : List γ) (b : β) :
    (l.foldlM f b).Only G := by
  induction l generalizing b with
  | nil =>
    rw [List.foldlM_nil]
    trivial
  | cons c l ih =>
    rw [List.foldlM_cons]
    exact (hf b c).bind ih

/-- A task that only looks keeps every discipline. -/
theorem Only.keeps (h : t.Looks) : t.Keeps D (fun _ _ => True) s := by
  induction t generalizing s with
  | done r => exact fun _ _ => trivial
  | step ready act next ih =>
    intro s' _ hinv hready
    obtain ⟨hact, hnext⟩ := h s' hready
    refine ⟨?_, ?_, ih s' hnext⟩
    · rwa [hact]
    · rw [hact]
      exact D.refl s'

end Task

/-! ### Crews -/

namespace Crew

variable {D : Discipline σ} {Q : Nat → α → σ → Prop} {c : Crew σ α} {i : Nat} {schedule : List Nat}

/-- All tasks of the crew keep a discipline; what each of them gives is as it should be. -/
structure Keeps (D : Discipline σ) (Q : Nat → α → σ → Prop) (c : Crew σ α) : Prop where
  inv : D.inv c.state
  task : ∀ {i : Nat} {t : Task σ α}, c.tasks[i]? = some t → t.Keeps D (Q i) c.state

/-- One step of one task: the discipline is kept, by the task and in the eyes of the others. -/
theorem Keeps.poll (h : c.Keeps D Q) (hQ : ∀ i a, Task.Stable D (Q i a)) (i : Nat) :
    (c.poll i).Keeps D Q ∧ D.may c.state (c.poll i).state := by
  rw [Crew.poll]
  rcases ht : c.tasks[i]? with _ | t
  · exact ⟨h, D.refl _⟩
  have hstep : D.inv (t.poll c.state).2 ∧ D.may c.state (t.poll c.state).2 ∧
      (t.poll c.state).1.Keeps D (Q i) (t.poll c.state).2 := by
    have hkeeps := h.task ht
    cases t with
    | done r => exact ⟨h.inv, D.refl _, hkeeps⟩
    | step ready act next =>
      rw [Task.poll]
      by_cases hready : ready c.state = true
      · rw [if_pos hready]
        exact hkeeps c.state (D.refl _) h.inv hready
      · rw [if_neg hready]
        exact ⟨h.inv, D.refl _, hkeeps⟩
  obtain ⟨hinv, hmay, htask⟩ := hstep
  refine ⟨⟨hinv, fun {j u} hu => ?_⟩, hmay⟩
  simp only at hu
  rw [List.getElem?_set] at hu
  split at hu
  · rename_i hij
    subst hij
    split at hu
    · obtain rfl := Option.some.inj hu
      exact htask
    · cases hu
  · exact (h.task hu).later (hQ j) hmay

/-- **A crew whose tasks keep a discipline does so on every schedule.** -/
theorem Keeps.run (h : c.Keeps D Q) (hQ : ∀ i a, Task.Stable D (Q i a)) (schedule : List Nat) :
    (c.run schedule).Keeps D Q ∧ D.may c.state (c.run schedule).state := by
  induction schedule generalizing c with
  | nil => exact ⟨h, D.refl _⟩
  | cons i rest ih =>
    obtain ⟨hpoll, hmay⟩ := h.poll hQ i
    obtain ⟨hrun, hmay'⟩ := ih hpoll
    exact ⟨hrun, D.trans hmay hmay'⟩

theorem Keeps.of_result? (h : c.Keeps D Q) {a : α} (hr : c.result? i = some (.ok a)) :
    Q i a c.state := by
  obtain ⟨t, ht, hres⟩ := Option.bind_eq_some_iff.1 hr
  cases t with
  | done r =>
    obtain rfl := Option.some.inj hres
    exact h.task ht a rfl
  | step ready act next => cases hres

/-- What a task gives is as it should be, also by what is known of the task alone at some moment. -/
theorem Keeps.of_task (h : c.Keeps D Q) (hQ : ∀ i a, Task.Stable D (Q i a)) {P : α → σ → Prop}
    (hP : ∀ a, Task.Stable D (P a)) {t : Task σ α} (ht : c.tasks[i]? = some t)
    (hkeeps : t.Keeps D P c.state) {a : α} (hr : (c.run schedule).result? i = some (.ok a)) :
    P a (c.run schedule).state := by
  obtain ⟨Q', hsame, hother⟩ : ∃ Q' : Nat → α → σ → Prop, Q' i = P ∧ ∀ j, j ≠ i → Q' j = Q j :=
    ⟨fun j => if j = i then P else Q j, if_pos rfl, fun _ hj => if_neg hj⟩
  have hrefined : c.Keeps D Q' := by
    refine ⟨h.inv, fun {j u} hu => ?_⟩
    by_cases hj : j = i
    · subst hj
      obtain rfl : t = u := Option.some.inj (ht.symm.trans hu)
      rwa [hsame]
    · rw [hother j hj]
      exact h.task hu
  have hstable (j : Nat) (b : α) : Task.Stable D (Q' j b) := by
    by_cases hj : j = i
    · rw [hj, hsame]
      exact hP b
    · rw [hother j hj]
      exact hQ j b
  have hgiven := (hrefined.run hstable schedule).1.of_result? hr
  rwa [hsame] at hgiven

/-- A task does what it may also after others have taken their steps, and itself. -/
theorem only_run {G : σ → σ → Prop} (h : ∀ t, c.tasks[i]? = some t → t.Only G) (schedule : List Nat) :
    ∀ t, (c.run schedule).tasks[i]? = some t → t.Only G := by
  induction schedule generalizing c with
  | nil => exact h
  | cons j rest ih =>
    refine ih (c := c.poll j) fun u hu => ?_
    rw [Crew.poll] at hu
    rcases ht : c.tasks[j]? with _ | t <;> rw [ht] at hu
    · exact h u hu
    simp only [List.getElem?_set] at hu
    split at hu
    · rename_i hji
      subst hji
      split at hu
      · obtain rfl := Option.some.inj hu
        have honly := h t ht
        cases t with
        | done r => exact honly
        | step ready act next =>
          rw [Task.poll]
          by_cases hready : ready c.state = true
          · rw [if_pos hready]
            exact (honly c.state hready).2
          · rw [if_neg hready]
            exact honly
      · cases hu
    · exact h u hu

/-- What a task does to the state when it is asked to take a step. -/
theorem poll_of_only {G : σ → σ → Prop} (hG : ∀ s, G s s)
    (h : ∀ t, c.tasks[i]? = some t → t.Only G) : G c.state (c.poll i).state := by
  rw [Crew.poll]
  rcases ht : c.tasks[i]? with _ | t
  · exact hG _
  have honly := h t ht
  cases t with
  | done r => exact hG _
  | step ready act next =>
    simp only [Task.poll]
    by_cases hready : ready c.state = true
    · rw [if_pos hready]
      exact (honly c.state hready).1
    · rw [if_neg hready]
      exact hG _

/-- A task that was not asked to take a step is as it was. -/
theorem getElem?_run (hi : i ∉ schedule) : (c.run schedule).tasks[i]? = c.tasks[i]? := by
  induction schedule generalizing c with
  | nil => rfl
  | cons j rest ih =>
    obtain ⟨hij, hrest⟩ := not_or.1 (List.mem_cons.not.1 hi)
    have hpoll : (c.poll j).tasks[i]? = c.tasks[i]? := by
      rw [Crew.poll]
      rcases c.tasks[j]? with _ | t
      · rfl
      · exact List.getElem?_set_ne (Ne.symm hij)
    exact (ih (c := c.poll j) hrest).trans hpoll

theorem run_append (c : Crew σ α) (before after : List Nat) :
    c.run (before ++ after) = (c.run before).run after := List.foldl_append

end Crew

end Stencil
