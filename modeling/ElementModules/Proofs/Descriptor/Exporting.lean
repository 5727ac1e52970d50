import ElementModules.Proofs.Descriptor.Converting

/-!
# Converted modules are not converted again

A module is converted if it exports no constant `descriptor` at the top level. A converted module
does: its binding is exported under that name, or a line behind the binding exports it. Everything in
front of that statement is made of balanced entries, whatever labels, statements and bodies it holds,
so the statement starts outside all brackets, strings and comments
(`exportsDescriptor_of_closedBy`).

## Main results

* `Writes.exportsDescriptor`: what a conversion writes exports a descriptor.
* `convert?_convert?`: a conversion of a converted module does nothing.
-/

namespace ElementModules.Script

open Text

/-- An export that is found behind some marks is found in the whole. -/
theorem exportsDescriptorFrom_append (before : Option Char) (a : List Mark) {b : List Mark}
    (h : exportsDescriptorFrom ((a.getLast?.map Mark.char).or before) b = true) :
    exportsDescriptorFrom before (a ++ b) = true := by
  induction a generalizing before with
  | nil => exact h
  | cons m a ih =>
    have hlast : ((m :: a).getLast?.map Mark.char).or before
        = (a.getLast?.map Mark.char).or (some m.char) := by
      cases hl : a.getLast? <;> simp [List.getLast?_cons, hl]
    rw [List.cons_append, exportsDescriptorFrom, Bool.or_eq_true]
    exact .inr (ih _ (hlast ▸ h))

/-- An export of the descriptor that starts a line. -/
theorem exportsDescriptor_of_closedBy {a : Text} (h : ClosedBy '\n' a) (r : Text) :
    exportsDescriptor (a ++ (("export const descriptor = " : Text) ++ r)) = true := by
  have hlast : ((marks a).getLast?.map Mark.char).or none = some '\n' := by
    have hc : (chars (marks a)).getLast? = some '\n' := by rw [chars_marks, h.getLast?]
    rw [chars, List.getLast?_map] at hc
    rw [hc]
    rfl
  rw [exportsDescriptor, Closed.marks_append (.inl h)]
  refine exportsDescriptorFrom_append none _ ?_
  rw [hlast]
  have hstarts : startsDescriptorExport (("export const descriptor = " : Text) ++ r) = true := rfl
  obtain ⟨ms, hm⟩ : ∃ ms, marks (("export const descriptor = " : Text) ++ r) = ⟨'e', .code, 0⟩ :: ms :=
    ⟨_, rfl⟩
  have hchars : chars (⟨'e', .code, 0⟩ :: ms) = ("export const descriptor = " : Text) ++ r := by
    rw [← hm, chars_marks]
  rw [hm, exportsDescriptorFrom, hchars, hstarts]
  rfl

end ElementModules.Script

namespace ElementModules.Descriptor

open Text Script

/-- **A module exports its binding** under the name `descriptor`. -/
theorem Frame.exportsDescriptor_listing {f : Frame} {body : Text}
    {imports leading trailing : List Text} (hid : isName f.identifier = true)
    (hend : endState body = .start)
    (hahead : ∀ p ∈ f.entriesAhead imports leading, isBalanced p = true)
    (hbehind : ∀ p ∈ f.entriesBehind trailing, isBalanced p = true) :
    Script.exportsDescriptor (listing (f.entriesAhead imports leading ++ f.bindingStatement body
      :: (f.entriesBehind trailing ++ [f.callLine, f.logLine]))) = true := by
  have hstatement : isBalanced (f.bindingStatement body) = true := by
    rw [isBalanced, Frame.endState_bindingStatement hid hend]
    rfl
  by_cases hname : f.identifier = exportName
  · -- the binding itself is the export
    have hout : listing (f.entriesAhead imports leading ++ f.bindingStatement body
          :: (f.entriesBehind trailing ++ [f.callLine, f.logLine]))
        = listing (f.entriesAhead imports leading)
        ++ (("export const descriptor = " : Text) ++ '\x7b' :: (f.inside body ++ ['\x7d', ';', '\n']
          ++ listing (f.entriesBehind trailing ++ [f.callLine, f.logLine]))) := by
      have hhead : f.bindingHead = ("export const descriptor = " : Text) := by
        rw [Frame.bindingHead, Frame.bindingWords, hname, if_pos (by simp)]
        decide
      rw [listing_append, listing_cons, Frame.bindingStatement, hhead]
      simp
    rw [hout]
    exact exportsDescriptor_of_closedBy (closedBy_listing hahead (by simp [Frame.entriesAhead])) _
  · -- the export stands behind the binding
    have hlines : f.entriesBehind trailing = [] :: Frame.block trailing
        ++ [("export const descriptor = " : Text) ++ f.identifier ++ [';'], f.defaultLine, []] := by
      rw [Frame.entriesBehind, Frame.aliasLines, if_neg hname]
      simp
    have hout : listing (f.entriesAhead imports leading ++ f.bindingStatement body
          :: (f.entriesBehind trailing ++ [f.callLine, f.logLine]))
        = listing (f.entriesAhead imports leading ++ f.bindingStatement body
          :: [] :: Frame.block trailing)
        ++ (("export const descriptor = " : Text) ++ (f.identifier ++ [';', '\n']
          ++ listing [f.defaultLine, [], f.callLine, f.logLine])) := by
      rw [hlines]
      simp
    rw [hout]
    refine exportsDescriptor_of_closedBy (closedBy_listing (fun p hp => ?_) (by simp)) _
    rw [List.mem_append, List.mem_cons] at hp
    rcases hp with hp | rfl | hp
    · exact hahead p hp
    · exact hstatement
    · exact hbehind p (by rw [hlines]; exact List.mem_append_left _ hp)

/-- **What a conversion writes exports a descriptor.** -/
theorem Writes.exportsDescriptor {c : Context} {t out : Text} {f : Frame} {body : Text}
    {imports leading trailing : List Text} (h : Writes c t out f body imports leading trailing)
    (hb : isBalanced t = true) (hq : closesQuotes t = true)
    (hr : Script.isName c.registry.receiver = true) : Script.exportsDescriptor out = true :=
  h.out_eq ▸ Frame.exportsDescriptor_listing h.isName (h.endState_body hq)
    (isBalanced_of_entries (h.isEntry_ahead hb hq hr)) (isBalanced_of_entries (h.isEntry_behind hb hq))

/-- **A conversion of a converted module does nothing**, whether a literal was taken over or not. -/
theorem convert?_convert? {c : Context} {t out : Text} {k : Conversion}
    (hr : isName c.registry.receiver = true) (hb : isBalanced t = true) (hq : closesQuotes t = true)
    (h : convert? c t = some (out, k)) :
    exportsDescriptor out = true ∧ ∀ c', convert? c' out = none := by
  obtain ⟨f, body, imports, leading, trailing, hw⟩ := exists_writes h
  have he := hw.exportsDescriptor hb hq hr
  exact ⟨he, fun c' => by rw [convert?, if_pos he]⟩

theorem convert?_convert?_sample :
    convert? sampleContext looseModule = some (framedModule, .converted)
      ∧ ∀ c', convert? c' framedModule = none :=
  ⟨convert?_looseModule, (convert?_convert? (by decide) (by decide) (by decide)
    convert?_looseModule).2⟩

end ElementModules.Descriptor
