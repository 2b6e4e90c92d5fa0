import Stencil.Files.Outage
import Stencil.Proofs.Op

/-!
# The steps of a replacement

What replacing a file does to a file system, whatever the file system is: directories are made
(`makes_ensureParentIn`), the file beside is opened and written, and it takes its name. Where the
replacement stops, one of these is the last step that was done (`leaves_replaceIn_steps`).
-/

namespace Stencil.Files

variable {σ : Type}

/-! ### Steps that fail -/

theorem leaves_unlessOut (outage : Option Outage) (step : WriteStep) (context : String) (fs : σ) :
    (unlessOut outage step context).Leaves fs (fun _ fs' => fs' = fs) fun fs' => fs' = fs := by
  unfold unlessOut
  split
  · split
    · exact rfl
    · exact rfl
  · exact rfl

variable [FileSystem σ] {fs fs' : σ} {path directory : String}

/-! ### Directories -/

/-- Directories of paths `P` are made, one after another. -/
inductive Makes (P : String → Prop) (fs : σ) : σ → Prop where
  | refl : Makes P fs fs
  | make {fs₁ fs₂ : σ} {directory : String} (before : Makes P fs fs₁) (hP : P directory)
      (hm : FileSystem.makeDirectory fs₁ directory = .ok fs₂) : Makes P fs fs₂

section Makes

variable {P : String → Prop}

theorem makes_makeDirectories (hup : ∀ d above, P d → Path.parent? d = some above → P above)
    (fuel : Nat) (hP : P directory) : Makes P fs (makeDirectories fuel fs directory).2 := by
  induction fuel generalizing fs directory with
  | zero => exact .refl
  | succ fuel ih =>
    rw [makeDirectories]
    split
    · exact .refl
    · split
      · exact .make .refl hP ‹_›
      · rcases hp : Path.parent? directory with _ | above
        · exact .refl
        · have hmade : Makes P fs (makeDirectories fuel fs above).2 := ih (hup _ _ hP hp)
          rw [Option.map_some]
          rcases hr : makeDirectories fuel fs above with ⟨_ | _, fs₁⟩ <;> rw [hr] at hmade
          · exact hmade
          · simp only
            split
            · exact hmade.make hP ‹_›
            · exact hmade
      · exact .refl

/-- Seeing to it that a directory is there. -/
theorem makes_ensureDirectory (hup : ∀ d above, P d → Path.parent? d = some above → P above)
    (hP : P directory) : Makes P fs (Op.result (ensureDirectory directory) fs).2 := by
  have hmade : Makes P fs (makeDirectories (directory.length + 1) fs directory).2 :=
    makes_makeDirectories hup _ hP
  rw [ensureDirectory, Op.result_bind_of_ok (Op.result_get fs)]
  split
  · split
    · exact .refl
    · exact .refl
  · rcases hr : makeDirectories (directory.length + 1) fs directory with ⟨_ | _, fs₁⟩ <;>
      rw [hr] at hmade
    · exact hmade
    · exact hmade

theorem of_ancestor? (hup : ∀ d above, P d → Path.parent? d = some above → P above) {above : String}
    (n : Nat) (hP : P directory) (h : ancestor? n directory = some above) : P above := by
  induction n generalizing directory with
  | zero =>
    obtain rfl := Option.some.inj h
    exact hP
  | succ n ih =>
    obtain ⟨parent, hparent, h⟩ := Option.bind_eq_some_iff.1 h
    exact ih (hup _ _ hP hparent) h

theorem makes_ensureDirectoryIn (outage : Option Outage)
    (hup : ∀ d above, P d → Path.parent? d = some above → P above) (hP : P directory) :
    Makes P fs (Op.result (ensureDirectoryIn outage directory) fs).2 := by
  rw [ensureDirectoryIn, Op.result_bind_of_ok (Op.result_get fs)]
  have hensure : Makes P fs (Op.result (ensureDirectory directory) fs).2 := makes_ensureDirectory hup hP
  split
  · rename_i n reason
    rcases hn : ancestor? n directory with _ | above
    · exact hensure
    · simp only
      split
      · exact hensure
      · have hmade : Makes P fs (makeDirectoriesAbove fs above).2 := by
          rw [makeDirectoriesAbove]
          split
          · exact .refl
          · exact makes_makeDirectories hup _ (hup _ _ (of_ancestor? hup n hP hn) ‹_›)
        rcases hr : makeDirectoriesAbove fs above with ⟨r, fs₁⟩
        rw [hr] at hmade
        exact hmade
  · exact hensure

/-- Seeing to it that the directory of a path is there. -/
theorem makes_ensureParentIn (outage : Option Outage)
    (hup : ∀ d above, P d → Path.parent? d = some above → P above)
    (hP : ∀ d, Path.parent? path = some d → P d) (fs : σ) :
    Makes P fs (Op.result (ensureParentIn outage path) fs).2 := by
  unfold ensureParentIn
  rcases hd : Path.parent? path with _ | directory
  · exact .refl
  · simp only
    split
    · exact .refl
    · exact makes_ensureDirectoryIn outage hup (hP directory hd)

end Makes

/-! ### The file that is written first -/

theorem leaves_createTemporary (other : String) (fs : σ) :
    (createTemporary other).Leaves fs (fun h fs' => FileSystem.create fs other = .ok (h, fs'))
      fun fs' => fs' = fs := by
  rw [createTemporary, Op.Leaves, Op.result_bind_of_ok (Op.result_get fs)]
  rcases FileSystem.create fs other with e | ⟨h, fs₁⟩
  · exact rfl
  · exact rfl

theorem leaves_writeIn (outage : Option Outage) (h : FileSystem.Handle σ) (other : String)
    (bytes : List UInt8) (fs : σ) : (writeIn outage h other bytes).Leaves fs
      (fun _ fs' => fs' = FileSystem.write fs h bytes)
      fun fs' => ∃ written, fs' = FileSystem.write fs h written := by
  unfold writeIn
  split
  · exact ⟨_, rfl⟩
  · exact rfl

theorem leaves_moveInto (source target : String) (fs : σ) :
    (moveInto source target).Leaves fs (fun _ fs' => FileSystem.rename fs source target = .ok fs')
      fun fs' => fs' = fs := by
  rw [moveInto, Op.Leaves, Op.result_bind_of_ok (Op.result_get fs)]
  rcases FileSystem.rename fs source target with e | fs₁
  · exact rfl
  · exact rfl

/-! ### Replacing -/

/-- When nothing fails, this is how a file is replaced. -/
theorem replaceIn_none (path : String) (bytes : List UInt8) :
    (replaceIn none path bytes : Op σ Unit) = replace path bytes := by
  unfold replaceIn replace ensureParentIn
  rcases Path.parent? path with _ | directory
  · rfl
  · cases hd : directory.isEmpty <;> simp [hd] <;> rfl

/-- What is there when the directories have been made. -/
def prepared (outage : Option Outage) (path : String) (fs : σ) : σ :=
  (Op.result (ensureParentIn outage path) fs).2

/-- The file beside has been opened, and some bytes are in it. -/
def Written (fs : σ) (path : String) (bytes : List UInt8) (fs' : σ) : Prop :=
  ∃ h fs₁, FileSystem.create fs (temporaryPath path) = .ok (h, fs₁) ∧ fs' = FileSystem.write fs₁ h bytes

/-- **Where a replacement stops**: directories have been made, or bytes are in the file beside. When it
comes to its end, that file with all bytes has taken the name. -/
theorem leaves_replaceIn_steps (outage : Option Outage) (path : String) (bytes : List UInt8) (fs : σ) :
    (replaceIn outage path bytes).Leaves fs
      (fun _ fs' => ∃ fs₁, Written (prepared outage path fs) path bytes fs₁ ∧
        FileSystem.rename fs₁ (temporaryPath path) path = .ok fs')
      (fun fs' => fs' = prepared outage path fs ∨
        ∃ written, Written (prepared outage path fs) path written fs') := by
  have hprepared : (ensureParentIn outage path).Leaves fs (fun _ fs' => fs' = prepared outage path fs)
      fun fs' => fs' = prepared outage path fs := Op.leaves_of_snd rfl
  unfold replaceIn
  refine (hprepared.imp (fun _ _ h => h) fun _ h => .inl h).bind ?_
  rintro - _ rfl
  refine (leaves_unlessOut outage .create _ _).bind_same (.inl rfl) fun _ => ?_
  refine ((leaves_createTemporary _ _).imp (fun _ _ h => h) fun _ => .inl).bind fun h fs₁ hc => ?_
  refine ((leaves_writeIn outage h _ bytes fs₁).imp (fun _ _ h => h) ?_).bind ?_
  · rintro _ ⟨written, rfl⟩
    exact .inr ⟨written, h, fs₁, hc, rfl⟩
  rintro - _ rfl
  have hwritten : Written (prepared outage path fs) path bytes (FileSystem.write fs₁ h bytes) :=
    ⟨h, fs₁, hc, rfl⟩
  refine (leaves_unlessOut outage .sync _ _).bind_same (.inr ⟨bytes, hwritten⟩) fun _ => ?_
  refine (leaves_unlessOut outage .rename _ _).bind_same (.inr ⟨bytes, hwritten⟩) fun _ => ?_
  refine (leaves_moveInto _ _ _).imp (fun _ fs' hr => ⟨_, hwritten, hr⟩) ?_
  rintro _ rfl
  exact .inr ⟨bytes, hwritten⟩

end Stencil.Files
