import Stencil.Catalog.Basic
import Stencil.Proofs.Cache.Fetch

/-!
# Compiled templates that agree with what is stored

A workshop is coherent with its source if every template it keeps is the one that would be compiled
anew, and the fragments it has loaded are those that would be loaded anew. As long as the source does
not change, a fetch through a coherent workshop answers what compiling anew answers, and leaves the
workshop coherent (`result_build`).
-/

namespace Stencil.Workshop

variable {σ ν : Type} {l : Lens σ Workshop} {view : σ → ν} {read : String → Op σ String}
  {load : Op σ Fragments} {s t : σ} {w : Workshop} {name : String}

/-- Compiles a template anew, from its text and from fragments that are loaded for it. -/
def compileAnew (name : String) (read : Op σ String) (load : Op σ Fragments) : Op σ Engine := do
  Op.requireKey "key" name
  let text ← read
  let f ← load
  Op.ofExcept (Engine.compile name text f)

/-- What a workshop compiles from is seen through a view, of which the workshop is no part. -/
structure Sees (l : Lens σ Workshop) (view : σ → ν) (read : String → Op σ String)
    (load : Op σ Fragments) : Prop where
  lawful : l.Lawful
  view_set : ∀ w s, view (l.set w s) = view s
  read : ∀ name, (read name).Looks view l.get
  load : load.Looks view l.get

/-- The fragments that a workshop has loaded, if it has any, are those of the source in a state. -/
def Loaded (load : Op σ Fragments) (s : σ) (w : Workshop) : Prop :=
  ∀ f, w.fragments? w.current = some f → (Op.result load s).1 = .ok f

/-- What a workshop keeps is what the source has in a state. -/
structure Coherent (read : String → Op σ String) (load : Op σ Fragments) (s : σ) (w : Workshop) :
    Prop where
  engines : w.engines.Holds fun name e => (Op.result (compileAnew name (read name) load) s).1 = .ok e
  loaded : Loaded load s w

theorem Sees.compileAnew (h : Sees l view read load) (name : String) :
    (compileAnew name (read name) load).Looks view l.get :=
  (Op.looks_requireKey "key" name).bind fun _ => (h.read name).bind fun _ => h.load.bind fun _ =>
    Op.looks_ofExcept _

theorem Coherent.of_view_eq (hs : Sees l view read load) (h : Coherent read load s w)
    (hv : view s = view t) : Coherent read load t w :=
  ⟨h.engines.imp fun name _ he => ((hs.compileAnew name).answer hv).symm.trans he,
    fun f hf => (hs.load.answer hv).symm.trans (h.loaded f hf)⟩

/-- What compiling anew answers for a template that can be read. -/
theorem Sees.result_compileAnew (h : Sees l view read load) (hn : name ≠ "") {text : String}
    (hread : (Op.result (read name) s).1 = .ok text) :
    (Op.result (Workshop.compileAnew name (read name) load) s).1 =
      ((Op.result load s).1 >>= Engine.compile name text) := by
  have hv := (h.read name).view_eq s
  rw [Workshop.compileAnew, Op.result_bind_of_ok (Op.result_requireKey "key" hn s)]
  rcases hr : Op.result (read name) s with ⟨e | text', s'⟩ <;> rw [hr] at hread hv
  · cases hread
  · obtain rfl : text' = text := Except.ok.inj hread
    rw [Op.result_bind_of_ok hr, ← h.load.answer hv]
    rcases hl : Op.result load s' with ⟨e | f, s''⟩
    · rw [Op.result_bind_of_error hl]
      rfl
    · rw [Op.result_bind_of_ok hl]
      show _ = Engine.compile name text' f
      cases Engine.compile name text' f <;> rfl

/-! ### What makes a workshop coherent -/

theorem coherent_empty (limit : Nat) : Coherent read load s (empty limit) :=
  ⟨Cache.holds_of_entries_eq_nil rfl, fun f hf => by simp [empty, fragments?] at hf⟩

theorem coherent_reload (w : Workshop) : Coherent read load s w.reload :=
  ⟨Cache.holds_of_entries_eq_nil rfl, fun f hf => by simp [reload, invalidate, renew, fragments?] at hf⟩

theorem Coherent.invalidate (h : Coherent read load s w) : Coherent read load s w.invalidate :=
  ⟨Cache.holds_of_entries_eq_nil rfl, h.loaded⟩

/-! ### Fetching -/

/-- The fragments of a workshop that may have loaded them: they are those of the source, the compiled
templates stay, and what is loaded now is right. -/
theorem result_fragments (h : Sees l view read load) (hv : view t = view s)
    (hf : Loaded load s (l.get t)) :
    ∃ t', Op.result (fragments l load) t = ((Op.result load s).1, t') ∧ view t' = view s ∧
      (l.get t').engines = (l.get t).engines ∧ Loaded load s (l.get t') := by
  rw [fragments, Op.result_bind_of_ok (Op.result_get t)]
  rcases hc : (l.get t).fragments? (l.get t).current with _ | f
  · have ha := h.load.answer hv
    have hk := h.load.kept_eq t
    have hview := (h.load.view_eq t).trans hv
    rcases hr : Op.result load t with ⟨e | f, t'⟩
    · rw [hr] at ha hk hview
      simp only [hc]
      rw [Op.result_bind_of_error hr, ← ha]
      refine ⟨t', rfl, hview, by rw [hk], fun f hf' => ?_⟩
      rw [hk, hc] at hf'
      simp at hf'
    · rw [hr] at ha hk hview
      simp only at ha hk hview
      simp only [hc]
      have hch : Op.result (Op.change l (·.fillCell (l.get t).current f)) t' =
          (.ok ⟨⟩, l.set ((l.get t').fillCell (l.get t).current f) t') := rfl
      rw [Op.result_bind_of_ok hr, Op.result_bind_of_ok hch, Op.result_pure, ← ha]
      refine ⟨_, rfl, (h.view_set _ _).trans hview, ?_, fun g hg => ?_⟩
      · rw [h.lawful.get_set, hk]
        rfl
      · rw [h.lawful.get_set, hk] at hg
        rcases cellValue?_set_cases hg with ⟨-, rfl⟩ | ⟨hne, -⟩
        · exact ha.symm
        · exact absurd rfl hne
  · simp only [hc]
    rw [Op.result_pure, hf f hc]
    refine ⟨t, rfl, hv, rfl, fun g hg => ?_⟩
    obtain rfl : f = g := by rwa [hc, Option.some.injEq] at hg
    exact hf f hc

/-- Compiling with the fragments of the workshop is compiling anew. -/
theorem result_make (h : Sees l view read load) (hn : name ≠ "") (hv : view t = view s)
    (hf : Loaded load s (l.get t)) :
    ∃ t', Op.result (do
        let text ← read name
        let f ← fragments l load
        Op.ofExcept (Engine.compile name text f)) t =
          ((Op.result (compileAnew name (read name) load) s).1, t') ∧
      view t' = view s ∧ (l.get t').engines = (l.get t).engines ∧ Loaded load s (l.get t') := by
  have ha := (h.read name).answer hv
  have hkt := (h.read name).kept_eq t
  have hvt := (h.read name).view_eq t
  have hvs := (h.read name).view_eq s
  rw [compileAnew, Op.result_bind_of_ok (Op.result_requireKey "key" hn s)]
  rcases hrs : Op.result (read name) s with ⟨e | text, s'⟩ <;>
    rcases hrt : Op.result (read name) t with ⟨e' | text', t'⟩ <;>
    rw [hrs, hrt] at ha <;> simp only [hrs, hrt] at hkt hvt hvs
  · obtain rfl : e' = e := by simpa using ha
    rw [Op.result_bind_of_error hrs, Op.result_bind_of_error hrt]
    exact ⟨t', rfl, hvt.trans hv, by rw [hkt], by rwa [hkt]⟩
  · simp at ha
  · simp at ha
  · obtain rfl : text' = text := by simpa using ha
    obtain ⟨u, hu, hview, heng, hfrag⟩ := result_fragments (t := t') h (hvt.trans hv) (by rwa [hkt])
    have hload : (Op.result load s').1 = (Op.result load s).1 := h.load.answer hvs
    rw [Op.result_bind_of_ok hrs, Op.result_bind_of_ok hrt]
    rcases hl : Op.result load s' with ⟨e | f, s''⟩ <;> rw [hl] at hload <;> rw [← hload] at hu
    · rw [Op.result_bind_of_error hl, Op.result_bind_of_error hu]
      exact ⟨u, rfl, hview, by rw [heng, hkt], hfrag⟩
    · rw [Op.result_bind_of_ok hl, Op.result_bind_of_ok hu]
      refine ⟨u, ?_, hview, by rw [heng, hkt], hfrag⟩
      cases Engine.compile name text' f <;> rfl

/-- **A fetch through a coherent workshop** answers what compiling anew answers, and leaves the source
as it is and the workshop coherent. -/
theorem result_build (h : Sees l view read load) (hc : Coherent read load s (l.get s)) (name : String) :
    ∃ s', Op.result (build l name (read name) load) s =
        ((Op.result (compileAnew name (read name) load) s).1, s') ∧
      view s' = view s ∧ Coherent read load s (l.get s') := by
  have hget (c : Cache Engine) (u : σ) : l.get ((l.comp enginesLens).set c u) =
      { l.get u with engines := c } := h.lawful.get_set _ _
  have hview (c : Cache Engine) (u : σ) : view ((l.comp enginesLens).set c u) = view u :=
    h.view_set _ _
  by_cases hn : name = ""
  · subst hn
    exact ⟨s, rfl, rfl, hc⟩
  rcases hs : (l.get s).engines.slot? name with _ | slot
  · obtain ⟨t', ht, hvt, heng, hfrag⟩ :=
      result_make (t := (l.comp enginesLens).set ((l.get s).engines.opened name) s) h hn (hview _ _)
        (by rw [hget]; exact hc.loaded)
    rw [hget] at heng
    have heng' : ((l.comp enginesLens).get t') = (l.get s).engines.opened name := heng
    refine ⟨_, Cache.result_fetch_miss hn hs ht, (hview _ _).trans hvt, ?_⟩
    rw [hget, heng']
    refine ⟨?_, hfrag⟩
    rcases hr : (Op.result (compileAnew name (read name) load) s).1 with e | a
    · exact hc.engines.discard_opened hs
    · exact hc.engines.fill_opened hs hr
  · obtain ⟨e, hv, he⟩ := hc.engines.of_slot hs
    rw [he]
    refine ⟨_, Cache.result_fetch_hit hn hs hv, hview _ _, ?_⟩
    rw [hget]
    exact ⟨hc.engines, hc.loaded⟩

end Stencil.Workshop
