import ElementModules.Proofs.Descriptor.Planning

/-!
# The draft of a repair

The **draft** of a repair is the repaired text before its end is tidied up. This module follows the
draft from left to right: each part meets the next one, so that a reading of the draft is the
concatenation of the readings of its parts (`Planned.reading_draft`): what is kept of the segments,
the import, and the canonical statements at their place.

Tidying up the end takes off or adds line feeds only (`finish_induct`).

## Main results

* `Planned.reading_draft`: readings of the draft.
* `finish_induct`: what does not see a line feed at the end does not see the tidying up.
* `Planned.exists_append`, `Planned.closedBy_front`: the repaired text in front of the canonical
  statements and behind them.
-/

namespace ElementModules.Descriptor

open Text Script

theorem isChain_text_segments (t : Text) : ((segments t).map Segment.text).IsChain Seam :=
  map_text_segments t ▸ isChain_pieces t

/-- The diagnostic line for a literal. -/
def diagnosticOf (c : Context) (l : ObjectLiteral) : Text :=
  diagnosticLine ((l.stringField? "library").getD c.library)
    ((l.stringField? "category").getD c.category)
    (((l.stringField? "type").filter fun v => !isUnspecificType v).getD l.identifier)

section Diagnostic

variable (c : Context) (l : ObjectLiteral)

theorem isLine_diagnosticOf : IsLine (diagnosticOf c l) := isLine_diagnosticLine _ _ _

theorem trim_diagnosticOf : trim (diagnosticOf c l ++ ['\n']) = diagnosticOf c l :=
  (shape_diagnosticLine _ _ _).1

theorem shape_diagnosticOf : shape (diagnosticOf c l ++ ['\n']) = .log :=
  (shape_diagnosticLine _ _ _).2

theorem isDiagnostic_diagnosticOf : isDiagnostic (diagnosticOf c l) = true :=
  isDiagnostic_diagnosticLine _ _ _

end Diagnostic

/-- The canonical statements are the call and the diagnostic line. -/
theorem canonicalStatements_eq (c : Context) (l : ObjectLiteral) :
    canonicalStatements c l = registrationCall c.registry.receiver l.identifier ++ ['\n']
      ++ (diagnosticOf c l ++ ['\n']) := by
  rw [canonicalStatements, List.append_assoc]
  rfl

section Canonical

variable {c : Context} {t : Text} {l : ObjectLiteral} (hr : isName c.registry.receiver = true)
  (hl : firstLiteral? t = some l)
include hr hl

theorem startsWithLine_canonicalStatements : StartsWithLine (canonicalStatements c l) := by
  refine ⟨registrationCall c.registry.receiver l.identifier, diagnosticOf c l ++ ['\n'], ?_,
    isLine_registrationCall hr (isName_identifier hl)⟩
  rw [canonicalStatements_eq, List.append_assoc]
  rfl

theorem closedBy_canonicalStatements : ClosedBy '\n' (canonicalStatements c l) := by
  have hcall := (isLine_registrationCall hr (isName_identifier hl)).closedBy
  rw [canonicalStatements_eq]
  exact .append (Closed.endState (.inl hcall)) (isLine_diagnosticOf c l).closedBy

end Canonical

/-- The import stands on a line of its own. -/
theorem startsWithLine_header {r : Registry} (hr : isName r.receiver = true) (s : Segment) :
    StartsWithLine (header r s) ∧ ClosedBy '\n' (header r s) := by
  have hline := isLine_registryImport hr
  refine ⟨⟨_, _, rfl, hline⟩, ?_⟩
  rcases header_cases r s with h | h <;> rw [h]
  · exact hline.closedBy
  · exact closedBy_newline (Closed.isBalanced (.inl hline.closedBy))

section Draft

variable {c : Context} {t : Text} {l : ObjectLiteral} {lead mid rest : List Segment}
  {site : Segment} {intro : Text}

theorem Planned.site_text (h : Planned c l t lead mid site rest intro) :
    IsPiece site.text ∧ site.text ≠ [] ∧ site.text ≠ ['\n'] := by
  have hm : site ∈ segments t := by rw [h.segments_eq]; simp
  obtain ⟨hp, hk⟩ := of_mem_segments hm
  refine ⟨hp, hp.ne_nil, fun he => h.site_kind.1 ?_⟩
  rw [hk, he, shape_newline]

/-- What is written in front of the import is fresh. -/
theorem Planned.isFresh_lead (h : Planned c l t lead mid site rest intro) :
    IsFresh (lead.foldl (put c.registry.receiver) []) := by
  cases lead with
  | nil => exact .inl rfl
  | cons s lead =>
    obtain ⟨m, ms, hms⟩ := List.exists_cons_of_ne_nil
      (List.append_ne_nil_of_right_ne_nil mid (List.cons_ne_nil site rest))
    have hc := isChain_text_segments t
    rw [h.segments_eq, List.append_assoc, hms, List.append_cons, List.map_append] at hc
    refine Meets.isFresh (t := m.text) (foldl_put_meets ?_ fun _ _ => .inl rfl)
    simpa using hc.left_of_append

/-- What is written in front of the call. -/
def writtenFront (receiver : Text) (lead mid : List Segment) (intro : Text) : Text :=
  mid.foldl (put receiver) (lead.foldl (put receiver) [] ++ intro)

theorem writtenCall_eq (c : Context) (l : ObjectLiteral) (t : Text) (lead mid : List Segment)
    (site : Segment) (intro : Text) :
    writtenCall (repairPlan c l (segments t)) lead mid site intro
      = putCall c.registry.receiver (canonicalStatements c l)
          (writtenFront c.registry.receiver lead mid intro) site := rfl

theorem Planned.meets_intro (h : Planned c l t lead mid site rest intro)
    (hr : isName c.registry.receiver = true) :
    ∀ m ∈ (mid ++ [site]).head?, Meets (lead.foldl (put c.registry.receiver) [] ++ intro) m.text := by
  intro m hm
  rcases h.intro_eq with ⟨-, rfl, rfl⟩ | ⟨-, s, -, -, -, rfl⟩
  · exact .inl rfl
  · exact .inr (.inl (.append h.isFresh_lead.endState (startsWithLine_header hr s).2))

/-- What is written meets each segment up to the one of the call. -/
theorem Planned.meets_at (h : Planned c l t lead mid site rest intro)
    (hr : isName c.registry.receiver = true) {mid₁ mid₂ : List Segment} {s : Segment}
    (hm : mid ++ [site] = mid₁ ++ s :: mid₂) :
    Meets (writtenFront c.registry.receiver lead mid₁ intro) s.text := by
  have hc := isChain_text_segments t
  have hsegs : segments t = lead ++ ((mid₁ ++ s :: mid₂) ++ rest) := by
    rw [h.segments_eq, ← hm]
    simp
  rw [hsegs, List.map_append, List.isChain_append] at hc
  refine foldl_put_meets ?_ ?_
  · have hc' := hc.2.1
    rw [List.append_cons, List.append_assoc, List.map_append] at hc'
    simpa using hc'.left_of_append
  · intro u hu
    have hfirst := h.meets_intro hr
    rw [hm] at hfirst
    cases mid₁ with
    | nil =>
      obtain rfl : s.text = u := by simpa using hu
      exact hfirst s rfl
    | cons m mid₁ =>
      obtain rfl : m.text = u := by simpa using hu
      exact hfirst m rfl

theorem Planned.meets_site (h : Planned c l t lead mid site rest intro)
    (hr : isName c.registry.receiver = true) :
    Meets (writtenFront c.registry.receiver lead mid intro) site.text :=
  h.meets_at hr rfl

theorem Planned.closed_site (h : Planned c l t lead mid site rest intro) {r : Segment}
    {rs : List Segment} (hrest : rest = r :: rs) : Seam site.text r.text := by
  have hc := isChain_text_segments t
  rw [h.segments_eq, List.map_append, List.isChain_append, hrest, List.map_cons,
    List.map_cons, List.isChain_cons_cons] at hc
  exact hc.2.1.1

section Reading

variable {β : Type} {f : Text → List β} (hf : IsReading f)
include hf

theorem Planned.reading_front (h : Planned c l t lead mid site rest intro)
    (hr : isName c.registry.receiver = true) :
    f (writtenFront c.registry.receiver lead mid intro)
      = lead.flatMap (readKept c.registry.receiver f) ++ f intro
        ++ mid.flatMap (readKept c.registry.receiver f) := by
  have hc := isChain_text_segments t
  rw [h.segments_eq, List.append_assoc, List.map_append, List.isChain_append, List.map_append,
    List.isChain_append] at hc
  have hlead : f (lead.foldl (put c.registry.receiver) [])
      = lead.flatMap (readKept c.registry.receiver f) := by
    rw [hf.foldl_put hc.1 fun _ _ => .inl rfl, hf.nil]
    rfl
  have hintro : f (lead.foldl (put c.registry.receiver) [] ++ intro)
      = lead.flatMap (readKept c.registry.receiver f) ++ f intro := by
    rcases h.intro_eq with ⟨-, rfl, rfl⟩ | ⟨-, s, -, -, -, rfl⟩
    · simp [hf.nil]
    · rw [hf.append_of_meets ((startsWithLine_header hr s).1.meets h.isFresh_lead), hlead]
  rw [writtenFront, hf.foldl_put hc.2.1.1, hintro]
  intro m hm
  refine h.meets_intro hr m ?_
  cases mid with
  | nil => cases hm
  | cons x mid => simpa using hm

/-- **Readings of the draft** go part by part. -/
theorem Planned.reading_draft (h : Planned c l t lead mid site rest intro)
    (hr : isName c.registry.receiver = true) (hl : firstLiteral? t = some l) :
    f (draft c l t lead mid site rest intro)
      = lead.flatMap (readKept c.registry.receiver f) ++ f intro
        ++ mid.flatMap (readKept c.registry.receiver f)
        ++ readCall c.registry.receiver (canonicalStatements c l) f site
        ++ rest.flatMap (readKept c.registry.receiver f) := by
  have hc := isChain_text_segments t
  rw [h.segments_eq, List.map_append, List.isChain_append, List.map_cons] at hc
  have hm := h.meets_site hr
  obtain ⟨-, hz, hn⟩ := h.site_text
  have hcall : f (writtenCall (repairPlan c l (segments t)) lead mid site intro)
      = lead.flatMap (readKept c.registry.receiver f) ++ f intro
        ++ mid.flatMap (readKept c.registry.receiver f)
        ++ readCall c.registry.receiver (canonicalStatements c l) f site := by
    rw [writtenCall_eq, hf.putCall (startsWithLine_canonicalStatements hr hl) hm hz hn,
      h.reading_front hf hr]
  rw [draft, hf.foldl_put hc.2.1.tail, hcall]
  intro r hrest
  cases rest with
  | nil => cases hrest
  | cons x rs =>
    obtain rfl : x = r := by simpa using hrest
    have hs := h.closed_site rfl
    exact .inr (.inl (putCall_closedBy _ (closedBy_canonicalStatements hr hl) hm.isFresh hs.closed
      hn))

end Reading

end Draft

/-! ### The end of the text -/

/-- Tidying up the end takes off line feeds only. -/
theorem exists_withoutBlankEnd (out : Text) :
    ∃ k, out = withoutBlankEnd out ++ List.replicate k '\n' := by
  obtain ⟨body, hb⟩ : ∃ body, (out.reverse.dropWhile (· = '\n')).reverse = body := ⟨_, rfl⟩
  obtain ⟨n, hout⟩ : ∃ n, out = body ++ List.replicate n '\n' := by
    refine ⟨(out.reverse.takeWhile (· = '\n')).length, ?_⟩
    have hrep : out.reverse.takeWhile (· = '\n')
        = List.replicate (out.reverse.takeWhile (· = '\n')).length '\n' :=
      List.eq_replicate_iff.2 ⟨rfl, fun c hc => by simpa using List.mem_takeWhile_imp hc⟩
    rw [← hb, ← List.reverse_replicate, ← hrep, ← List.reverse_append,
      List.takeWhile_append_dropWhile, List.reverse_reverse]
  rw [withoutBlankEnd, hb]
  cases n with
  | zero =>
    have hlen : ¬ body.length < out.length := by rw [hout]; simp
    exact ⟨0, by rw [if_neg hlen]; simp⟩
  | succ n =>
    have hlen : body.length < out.length := by rw [hout]; simp
    refine ⟨n, ?_⟩
    rw [if_pos hlen, List.append_assoc, List.singleton_append, ← List.replicate_succ]
    exact hout

/-- What does not see a line feed at the end of a text does not see how a statement is ended. -/
theorem ended_induct {α : Type} {f : Text → α} (hf : ∀ t, f (t ++ ['\n']) = f t) (z : Text) :
    f (ended z) = f z := by
  have hl : f (withLineEnd z) = f z := by
    rcases withLineEnd_cases z with ⟨he, -⟩ | he
    · rw [he]
    · rw [he, hf]
  rcases withBlankLine_cases (withLineEnd z) with ⟨he, -⟩ | he
  · rw [ended, he, hl]
  · rw [ended, he, hf, hl]

/-- What does not see a line feed at the end of a text does not see the tidying up. -/
theorem finish_induct {α : Type} {f : Text → α} (hf : ∀ t, f (t ++ ['\n']) = f t) (out : Text) :
    f (withoutBlankEnd (withLineEnd out)) = f out := by
  have hk : ∀ (k : Nat) (t : Text), f (t ++ List.replicate k '\n') = f t := by
    intro k
    induction k with
    | zero => intro t; simp
    | succ k ih => intro t; rw [List.replicate_succ', ← List.append_assoc, hf, ih]
  have hl : f (withLineEnd out) = f out := by
    rcases withLineEnd_cases out with ⟨he, -⟩ | he
    · rw [he]
    · rw [he, hf]
  obtain ⟨k, hout⟩ := exists_withoutBlankEnd (withLineEnd out)
  calc f (withoutBlankEnd (withLineEnd out))
      = f (withoutBlankEnd (withLineEnd out) ++ List.replicate k '\n') := (hk k _).symm
    _ = f (withLineEnd out) := by rw [← hout]
    _ = f out := hl

/-! ### The place of the call -/

/-- What stands in front of the canonical statements. -/
def frontOfCall (receiver front : Text) (site : Segment) : Text :=
  if isSuperseded receiver site then withLineEnd front else front ++ ended site.text

theorem prefix_withLineEnd (out : Text) : out <+: withLineEnd out := by
  rcases withLineEnd_cases out with ⟨he, -⟩ | he
  · exact he.symm ▸ List.prefix_rfl
  · exact he.symm ▸ List.prefix_append _ _

theorem prefix_withBlankLine (out : Text) : out <+: withBlankLine out := by
  rcases withBlankLine_cases out with ⟨he, -⟩ | he
  · exact he.symm ▸ List.prefix_rfl
  · exact he.symm ▸ List.prefix_append _ _

/-- What is written stays. -/
theorem prefix_foldl_put (receiver out : Text) (segs : List Segment) :
    out <+: segs.foldl (put receiver) out := by
  induction segs generalizing out with
  | nil => exact List.prefix_rfl
  | cons s segs ih =>
    refine List.IsPrefix.trans ?_ (ih (put receiver out s))
    rw [put]
    split_ifs
    · exact prefix_withLineEnd out
    · exact List.prefix_rfl
    · exact prefix_withBlankLine out
    · exact List.prefix_append _ _

/-- Tidying up the end does not reach beyond a character other than a line feed. -/
theorem withoutBlankEnd_append {c : Char} (hc : c ≠ '\n') (q z : Text) :
    withoutBlankEnd (q ++ c :: z) = q ++ c :: withoutBlankEnd z := by
  obtain ⟨body, hb⟩ : ∃ body, (z.reverse.dropWhile (· = '\n')).reverse = body := ⟨_, rfl⟩
  have hrev : (q ++ c :: z).reverse = z.reverse ++ c :: q.reverse := by simp
  have hd : ((q ++ c :: z).reverse.dropWhile (· = '\n')).reverse = q ++ c :: body := by
    rw [hrev, List.dropWhile_append, ← hb]
    split
    · rename_i he
      rw [List.isEmpty_iff] at he
      rw [he, List.dropWhile_cons_of_neg (by simpa using hc)]
      simp
    · simp
  rw [withoutBlankEnd, withoutBlankEnd, hd, hb]
  simp only [List.length_append, List.length_cons, Nat.add_lt_add_iff_left,
    Nat.add_lt_add_iff_right]
  split <;> simp

theorem withoutBlankEnd_newline (z : Text) : ∃ y, withoutBlankEnd ('\n' :: z) = '\n' :: y := by
  rw [withoutBlankEnd]
  cases hb : (('\n' :: z).reverse.dropWhile (· = '\n')).reverse with
  | nil => exact ⟨[], rfl⟩
  | cons c body =>
    have hp : c :: body <+: '\n' :: z := by
      rw [← hb, ← List.reverse_suffix, List.reverse_reverse]
      exact List.dropWhile_suffix _
    obtain ⟨r, hr⟩ := hp
    obtain ⟨rfl, -⟩ := List.cons.inj hr
    split
    · exact ⟨body ++ ['\n'], rfl⟩
    · exact ⟨z, rfl⟩

/-- The canonical statements end with one line feed, behind a semicolon. -/
theorem exists_canonicalStatements_eq (c : Context) (l : ObjectLiteral) :
    ∃ q, canonicalStatements c l = q ++ ';' :: ['\n'] := by
  obtain ⟨q, hq⟩ : ∃ q, diagnosticOf c l = q ++ [';'] := ⟨_, diagnosticLine_eq _ _ _⟩
  exact ⟨_, by rw [canonicalStatements_eq, hq, List.append_assoc q, ← List.append_assoc]; rfl⟩

section Place

variable {c : Context} {t : Text} {l : ObjectLiteral} {lead mid rest : List Segment}
  {site : Segment} {intro : Text}

theorem Planned.writtenCall_eq_append (h : Planned c l t lead mid site rest intro) :
    writtenCall (repairPlan c l (segments t)) lead mid site intro
      = frontOfCall c.registry.receiver (writtenFront c.registry.receiver lead mid intro) site
        ++ canonicalStatements c l := by
  obtain ⟨-, hz, hn⟩ := h.site_text
  rw [writtenCall_eq, frontOfCall]
  cases hd : isSuperseded c.registry.receiver site
  · rw [putCall_of_kept hd hz hn, if_neg (by simp), List.append_assoc]
  · rw [putCall_of_superseded hd, if_pos rfl]

/-- The canonical statements are found in the repaired text behind what is written in front of
them. -/
theorem Planned.exists_append (h : Planned c l t lead mid site rest intro) :
    ∃ after, withoutBlankEnd (withLineEnd (draft c l t lead mid site rest intro))
      = frontOfCall c.registry.receiver (writtenFront c.registry.receiver lead mid intro) site
        ++ canonicalStatements c l ++ after := by
  obtain ⟨q, hq⟩ := exists_canonicalStatements_eq c l
  obtain ⟨z, hz⟩ := (prefix_foldl_put c.registry.receiver
    (writtenCall (repairPlan c l (segments t)) lead mid site intro) rest).trans
    (prefix_withLineEnd _)
  rw [h.writtenCall_eq_append, hq, List.append_assoc, List.append_assoc] at hz
  obtain ⟨y, hy⟩ := withoutBlankEnd_newline z
  refine ⟨y, ?_⟩
  have hout : withLineEnd (draft c l t lead mid site rest intro)
      = frontOfCall c.registry.receiver (writtenFront c.registry.receiver lead mid intro) site
        ++ (q ++ ';' :: '\n' :: z) := by
    rw [draft, h.writtenCall_eq_append, hq, ← hz]
    rfl
  rw [hout, ← List.append_assoc, withoutBlankEnd_append (by decide), hy, hq]
  simp

/-- What stands in front of the call in a balanced text ends a line. -/
theorem Planned.closedBy_front (h : Planned c l t lead mid site rest intro)
    (hr : isName c.registry.receiver = true) (hb : isBalanced t = true) :
    frontOfCall c.registry.receiver (writtenFront c.registry.receiver lead mid intro) site = []
      ∨ ClosedBy '\n'
        (frontOfCall c.registry.receiver (writtenFront c.registry.receiver lead mid intro) site) := by
  have hf := (h.meets_site hr).isFresh
  have hm : site ∈ segments t := by rw [h.segments_eq]; simp
  rw [frontOfCall]
  split
  · exact hf.withLineEnd
  · exact .inr (.append hf.endState
      (closedBy_ended (isBalanced_of_mem_segments hb hm) h.site_text.2.1))

end Place

end ElementModules.Descriptor
