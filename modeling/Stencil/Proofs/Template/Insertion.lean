import Stencil.Proofs.Template.Tokens

/-!
# Writing a token into a text

A token that is written into a text, in a place where it is read as one, leaves the other tokens as
they are: without it the text has the same tokens otherwise (`exists_tokens_removed`).
-/

namespace Stencil

namespace Template

/-! ### Tokens and what stands around them -/

/-- A token begins at the first two opening braces of its text, and ends at the first two closing ones
behind them. -/
theorem IsToken.firstPairs {text before inside after : List Char}
    (h : IsToken text before inside after) :
    FirstPair '{' text before (inside ++ '}' :: '}' :: after) ∧
      FirstPair '}' (inside ++ '}' :: '}' :: after) inside after := by
  rcases token_or_not text with ⟨before', rest, inside', after', ho, hc⟩ | ⟨hno, -⟩
  · obtain ⟨rfl, rfl, rfl⟩ := h.unique (isToken_of_firstPairs ho hc)
    exact ⟨hc.eq ▸ ho, hc.eq ▸ hc⟩
  · exact absurd h.eq (hno _ _ _)

/-- What stands behind a token is of no account to it. -/
theorem IsToken.of_after {text before inside after : List Char} (h : IsToken text before inside after)
    (after' : List Char) :
    IsToken (before ++ ((Piece.token inside).source ++ after')) before inside after' := by
  obtain ⟨ho, hc⟩ := h.firstPairs
  have ho' : FirstPair '{' (before ++ ((Piece.token inside).source ++ after')) before
      (inside ++ '}' :: '}' :: after') := ⟨by rw [source_append], ho.first⟩
  exact isToken_of_firstPairs ho' ⟨rfl, hc.first⟩

/-- A stretch of a text does not begin in front of the text `v` if there are no two opening braces
there. -/
theorem exists_of_append_eq {u v before inside after : List Char} (hu : ¬ ['{', '{'] <:+: u ++ ['{'])
    (h : u ++ v = before ++ ((Piece.token inside).source ++ after)) :
    ∃ before', before = u ++ before' ∧ v = before' ++ ((Piece.token inside).source ++ after) := by
  have hle := length_le_of_not_pair hu (h.trans (by rw [source_append]))
  rcases List.append_eq_append_iff.1 h with ⟨before', rfl, hv⟩ | ⟨u', rfl, hv⟩
  · exact ⟨before', rfl, hv⟩
  · rw [List.length_append] at hle
    obtain rfl : u' = [] := List.eq_nil_of_length_eq_zero (by omega)
    exact ⟨[], by simp, by simpa using hv.symm⟩

theorem IsToken.behind {u v before inside after : List Char} (hu : ¬ ['{', '{'] <:+: u ++ ['{'])
    (h : IsToken v before inside after) : IsToken (u ++ v) (u ++ before) inside after where
  eq := by rw [h.eq, List.append_assoc]
  leftmost before' inside' after' h' := by
    obtain ⟨before', rfl, hv⟩ := exists_of_append_eq hu h'
    simpa using h.leftmost _ _ _ hv
  shortest inside' after' h' := by
    rw [List.append_assoc] at h'
    exact h.shortest _ _ (List.append_cancel_left h')

/-- Text without two opening braces does not change the tokens behind it. -/
theorem Tokens.behind {done u v : List Char} {sites : List Site} (hu : ¬ ['{', '{'] <:+: u ++ ['{'])
    (h : Tokens (done ++ u) v sites) : Tokens done (u ++ v) sites := by
  cases h with
  | none hno =>
    refine .none fun before inside after h => ?_
    obtain ⟨before', -, hv⟩ := exists_of_append_eq hu h
    exact hno _ _ _ hv
  | @next _ _ before _ _ _ htoken hnext =>
    rw [List.append_assoc done u before] at hnext ⊢
    exact .next (htoken.behind hu) hnext

/-! ### Tokens further on -/

theorem map_inside_sitesFrom (done done' : List Char) (pieces : List Piece) :
    (sitesFrom done pieces).map Site.inside = (sitesFrom done' pieces).map Site.inside := by
  induction pieces generalizing done done' with
  | nil => rfl
  | cons piece pieces ih =>
    cases piece with
    | literal text => exact ih _ _
    | token inside => exact congrArg (inside :: ·) (ih _ _)

/-- The same text has the same tokens behind another beginning. -/
theorem Tokens.exists_moved {done rest : List Char} {sites : List Site} (h : Tokens done rest sites)
    (done' : List Char) :
    ∃ sites', Tokens done' rest sites' ∧ sites'.map Site.inside = sites.map Site.inside := by
  refine ⟨_, tokens_cut done' rest, ?_⟩
  rw [tokens_iff.1 h]
  exact map_inside_sitesFrom _ _ _

/-- A token of the rest of a text stands in that rest. -/
theorem Tokens.exists_of_mem {done rest : List Char} {sites : List Site} (h : Tokens done rest sites)
    {site : Site} (hsite : site ∈ sites) : ∃ before after, site.before = done ++ before ∧
      rest = before ++ ((Piece.token site.inside).source ++ after) := by
  induction h with
  | none => cases hsite
  | @next done rest before inside after sites htoken _ ih =>
    rcases List.mem_cons.1 hsite with rfl | hsite
    · exact ⟨before, after, rfl, htoken.eq⟩
    · obtain ⟨before', after', hbefore, hafter⟩ := ih hsite
      refine ⟨before ++ ((Piece.token inside).source ++ before'), after', ?_, ?_⟩
      · rw [hbefore]
        simp
      · rw [htoken.eq, hafter]
        simp

/-! ### Taking a token out -/

/-- A text with a token in it has the same tokens otherwise when that token is taken out. -/
theorem exists_tokens_removed {done u v inside : List Char} {before after : List Site}
    (h : Tokens done (u ++ ((Piece.token inside).source ++ v))
      (before ++ ⟨done ++ u, inside⟩ :: after)) :
    ∃ after', Tokens done (u ++ v) (before ++ after') ∧
      after'.map Site.inside = after.map Site.inside := by
  induction before generalizing done u with
  | nil =>
    generalize htext : u ++ ((Piece.token inside).source ++ v) = text at h
    generalize hsites : [] ++ ⟨done ++ u, inside⟩ :: after = sites at h
    cases h with
    | none => cases hsites
    | @next _ _ b i a sites htoken hnext =>
      obtain ⟨⟨hb, rfl⟩, rfl⟩ : (done ++ u = done ++ b ∧ inside = i) ∧ after = sites := by
        simpa using hsites
      obtain rfl := List.append_cancel_left hb
      have hv : v = a := by simpa [htoken.eq] using htext
      subst hv
      obtain ⟨after', hafter, hsame⟩ := hnext.exists_moved (done ++ u)
      exact ⟨after', hafter.behind htoken.firstPairs.1.first, hsame⟩
  | cons site before ih =>
    generalize htext : u ++ ((Piece.token inside).source ++ v) = text at h
    generalize hsites : site :: before ++ ⟨done ++ u, inside⟩ :: after = sites at h
    cases h with
    | none => cases hsites
    | @next _ _ b i a sites htoken hnext =>
      obtain ⟨rfl, rfl⟩ : site = ⟨done ++ b, i⟩ ∧ before ++ ⟨done ++ u, inside⟩ :: after = sites := by
        simpa using hsites
      -- the token that goes stands behind this one
      have hmem : ⟨done ++ u, inside⟩ ∈ before ++ ⟨done ++ u, inside⟩ :: after := by simp
      obtain ⟨w, x, hw, ha⟩ := hnext.exists_of_mem hmem
      have hu : u = b ++ ((Piece.token i).source ++ w) := by simpa using hw
      subst hu
      have hx : v = x := by simpa [htoken.eq, ha] using htext
      subst hx
      have hdone : done ++ (b ++ ((Piece.token i).source ++ w)) =
          done ++ b ++ (Piece.token i).source ++ w := by simp
      rw [hdone, ha] at hnext
      obtain ⟨after', hafter, hsame⟩ := ih hnext
      refine ⟨after', ?_, hsame⟩
      have htoken' := htoken.of_after (w ++ v)
      rw [List.append_assoc, List.append_assoc]
      exact .next htoken' hafter

end Template

end Stencil
