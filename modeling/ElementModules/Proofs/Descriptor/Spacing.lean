import ElementModules.Proofs.Descriptor.Converting
import ElementModules.Proofs.Descriptor.Tidy

/-!
# Blank lines in a listing

Entries are **spaced** if no empty entry stands at an end or beside another one. A listing of spaced
entries is tidy (`isTidy_listing`). The statements that a conversion keeps are spaced
(`Laid.isSpaced`), and so are those of a converted module (`Writes.isSpaced`).

## Main results

* `isTidy_listing`: listings of spaced entries are tidy.
* `Writes.isSpaced`: the entries of a converted module are spaced.
-/

namespace ElementModules.Descriptor

open Text Script

/-- Entries of which no empty one stands at an end or beside another one. -/
structure IsSpaced (ps : List Text) : Prop where
  chain : ps.IsChain fun p q => p ≠ [] ∨ q ≠ []
  head : ∀ p ∈ ps.head?, p ≠ []
  last : ∀ p ∈ ps.getLast?, p ≠ []

namespace IsSpaced

theorem nil : IsSpaced [] := ⟨.nil, by simp, by simp⟩

/-- Statements alone are spaced. -/
theorem of_ne {ps : List Text} (h : ∀ p ∈ ps, p ≠ []) : IsSpaced ps where
  chain := List.isChain_iff_forall_rel_of_append_cons_cons.2 fun p q _ _ he =>
    .inl (h p (he ▸ by simp))
  head p hp := h p (List.mem_of_mem_head? hp)
  last p hp := h p (List.mem_of_mem_getLast? hp)

variable {ps qs : List Text} (h : IsSpaced ps) (h' : IsSpaced qs)
include h h'

theorem append : IsSpaced (ps ++ qs) where
  chain := List.isChain_append.2 ⟨h.chain, h'.chain, fun p hp _ _ => .inl (h.last p hp)⟩
  head p hp := by
    rw [List.head?_append] at hp
    cases hh : ps.head? with
    | none => exact h'.head p (by simpa [hh] using hp)
    | some q => exact h.head p (by simpa [hh] using hp)
  last p hp := by
    rw [List.getLast?_append] at hp
    cases hl : qs.getLast? with
    | none => exact h.last p (by simpa [hl] using hp)
    | some q => exact h'.last p (by simpa [hl] using hp)

/-- An empty entry between two statements. -/
theorem gap (hps : ps ≠ []) (hqs : qs ≠ []) : IsSpaced (ps ++ [] :: qs) where
  chain := by
    refine List.isChain_append.2 ⟨h.chain, ?_, fun p hp _ _ => .inl (h.last p hp)⟩
    obtain ⟨q, qs, rfl⟩ := List.exists_cons_of_ne_nil hqs
    exact List.isChain_cons_cons.2 ⟨.inr (h'.head q rfl), h'.chain⟩
  head p hp := by
    obtain ⟨q, ps, rfl⟩ := List.exists_cons_of_ne_nil hps
    exact h.head p hp
  last p hp := by
    obtain ⟨q, qs, rfl⟩ := List.exists_cons_of_ne_nil hqs
    rw [List.getLast?_append, List.getLast?_cons_cons] at hp
    refine h'.last p ?_
    cases hl : (q :: qs).getLast? with
    | none => simp at hl
    | some x => simpa [hl] using hp

end IsSpaced

/-- A listing does not end with a blank line if its last entry is a statement. -/
theorem not_blankLine_listing {ps : List Text} {p : Text} (h : IsEntry p) :
    ¬ ['\n', '\n'] <:+ listing (ps ++ [p]) := by
  rintro ⟨u, hu⟩
  obtain ⟨q, c, rfl⟩ := (List.eq_nil_or_concat p).resolve_left h.ne_nil
  rw [List.concat_eq_append] at h hu
  have hc := h.last c (by simp)
  have hend : (u ++ ['\n']) ++ ['\n'] = (listing ps ++ (q ++ [c])) ++ ['\n'] := by
    simpa [List.append_assoc] using hu
  have hlast := congrArg List.getLast? (List.append_cancel_right hend)
  rw [List.getLast?_concat, ← List.append_assoc, List.getLast?_concat] at hlast
  rw [← Option.some.inj hlast] at hc
  cases hc

/-- **Listings of spaced entries are tidy.** -/
theorem isTidy_listing {ps : List Text} (h : ∀ p ∈ ps, p = [] ∨ IsEntry p)
    (hchain : ps.IsChain fun p q => p ≠ [] ∨ q ≠ []) (hhead : ∀ p ∈ ps.head?, p ≠ []) :
    IsTidy (listing ps) := by
  induction ps using List.reverseRecOn with
  | nil => exact .nil
  | append_singleton ps p ih =>
    rw [List.isChain_append] at hchain
    have hps : ∀ q ∈ ps, q = [] ∨ IsEntry q := fun q hq => h q (List.mem_append_left _ hq)
    have ht := ih hps hchain.1 fun q hq => hhead q (by
      rw [List.head?_append, hq]
      rfl)
    rw [listing_append, listing_cons, listing_nil, List.append_nil]
    rcases h p (by simp) with rfl | he
    · -- the entry in front of an empty one is a statement
      obtain ⟨qs, q, rfl⟩ := (List.eq_nil_or_concat ps).resolve_left (by
        rintro rfl
        exact hhead [] rfl rfl)
      rw [List.concat_eq_append] at ht hps hchain ⊢
      have hq : IsEntry q := (hps q (by simp)).resolve_left
        ((hchain.2.2 q (by simp) [] rfl).resolve_right (by simp))
      exact ht.append_newline (by simp) (not_blankLine_listing hq)
    · refine ht.append_piece ?_ he.isPiece_newline ?_
      · rcases List.eq_nil_or_concat ps with rfl | ⟨qs, q, rfl⟩
        · exact .inl rfl
        · exact .inr (.inl (closedBy_listing (isBalanced_of_entries hps) (by simp)))
      · rw [shape_append_newline]
        exact he.shape_ne_blank

/-- The statements that a conversion keeps are spaced. -/
theorem Laid.isSpaced {c : Context} {t : Text} {ps : List Text} {ss : List Segment}
    (h : Laid ps ss) (hs : ∀ s ∈ ss, s ∈ carriedOver c t) : IsSpaced ps := by
  have hne : ∀ {p : Text} {s : Segment}, s ∈ carriedOver c t → s.IsCut p → p ≠ [] := by
    rintro p s hm hc rfl
    exact trimmed_ne_nil (mem_carriedOver hm).1 (mem_carriedOver hm).2.1 hc.trim_eq.symm
  induction h with
  | nil => exact .nil
  | next _ cut ih =>
    exact (ih fun s hm => hs s (List.mem_append_left _ hm)).append
      (.of_ne (by simpa using hne (hs _ (by simp)) cut))
  | @behindGap ps ss p s _ nonempty cut ih =>
    exact (ih fun s hm => hs s (List.mem_append_left _ hm)).gap
      (.of_ne (by simpa using hne (hs s (by simp)) cut)) nonempty (by simp)

/-- A block of statements in front of others. -/
theorem IsSpaced.block {ps qs : List Text} (h : IsSpaced ps) (h' : IsSpaced qs) (hqs : qs ≠ []) :
    IsSpaced (Frame.block ps ++ qs) := by
  rw [Frame.block]
  split
  · exact h'
  · rename_i hps
    rw [List.append_assoc]
    exact h.gap h' (by simpa using hps) hqs

/-- The entries of a module are spaced if the statements that are kept are. -/
theorem Frame.isSpaced_entries {f : Frame} (hid : isName f.identifier = true)
    (hr : isName f.registry.receiver = true) (body : Text) {imports leading trailing : List Text}
    (himports : IsSpaced imports) (hleading : IsSpaced leading) (htrailing : IsSpaced trailing) :
    IsSpaced (f.entriesAhead imports leading ++ f.bindingStatement body
      :: (f.entriesBehind trailing ++ [f.callLine, f.logLine])) := by
  have hopening : IsSpaced ([f.headerComment, registryImport f.registry] ++ imports) := by
    refine .append (.of_ne ?_) himports
    have himport := (isLine_registryImport (r := f.registry) hr).isEntry.ne_nil
    simp only [List.forall_mem_cons]
    exact ⟨f.isEntry_headerComment.1.ne_nil, himport, fun p hp => nomatch hp⟩
  have hexports : IsSpaced (f.aliasLines ++ [f.defaultLine]) := by
    refine .of_ne fun p hp => ?_
    rcases List.mem_append.1 hp with hp | hp
    · exact (Frame.isLine_aliasLines hid p hp).isEntry.ne_nil
    · rw [List.mem_singleton.1 hp]
      exact (Frame.isLine_defaultLine hid).isEntry.ne_nil
  have hregistration : IsSpaced [f.callLine, f.logLine] := by
    refine .of_ne ?_
    have hcall := (isLine_registrationCall (r := f.registry.receiver) hr hid).isEntry.ne_nil
    have hlog := (isLine_diagnosticLine f.library f.category f.identifier).isEntry.ne_nil
    simp only [List.forall_mem_cons]
    exact ⟨hcall, hlog, fun p hp => nomatch hp⟩
  have hclosing := htrailing.block (hexports.gap hregistration (by simp) (by simp)) (by simp)
  have hbinding : IsSpaced [f.bindingStatement body] := .of_ne (by simp [Frame.bindingStatement])
  have hbehind := hbinding.gap hclosing (by simp) (by simp)
  have hwhole := hopening.gap (hleading.block hbehind (by simp)) (by simp) (by simp)
  simpa [Frame.entriesAhead, Frame.entriesBehind] using hwhole

/-- **The entries of a converted module are spaced.** -/
theorem Writes.isSpaced {c : Context} {t out : Text} {f : Frame} {body : Text}
    {imports leading trailing : List Text} (h : Writes c t out f body imports leading trailing)
    (hr : Script.isName c.registry.receiver = true) :
    IsSpaced (f.entriesAhead imports leading ++ f.bindingStatement body
      :: (f.entriesBehind trailing ++ [f.callLine, f.logLine])) :=
  Frame.isSpaced_entries h.isName (h.registry ▸ hr) body
    (h.imports.isSpaced fun _ => List.mem_of_mem_filter)
    (h.leading.isSpaced fun _ => List.mem_of_mem_filter)
    (h.trailing.isSpaced fun _ => List.mem_of_mem_filter)

end ElementModules.Descriptor
