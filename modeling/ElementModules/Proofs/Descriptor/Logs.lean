import ElementModules.Proofs.Descriptor.Receivers
import ElementModules.Proofs.Descriptor.Recognizing

/-!
# Log statements

A statement is a log statement if, without the blanks in front of it, it starts with a member of the
console (`shape_eq_log_iff`). Repairs and conversions take those away that are diagnostic and leave all
others, in their order (`logs_rewritten`). Whether one is diagnostic is told from the words in its
text, so a warning that says that something is not registered is taken for a diagnostic line
(`logs_lost_warningModule`).

Beside the diagnostic line one more log statement may be written: a registration on a receiver
`console` is read as one.

## Main results

* `shape_eq_log_iff`: which statements are log statements.
* `logs_rewritten`: the log statements of repaired and converted modules.
-/

namespace ElementModules.Script

open Text

/-- Whether a text starts as a log statement does. -/
def startsLog (p : Text) : Bool := startsWith p "console."

theorem startsLog_iff {p : Text} : startsLog p = true ↔ ∃ r, p = ("console." : Text) ++ r := by
  rw [startsLog, startsWith, List.isPrefixOf_iff_prefix]
  exact exists_congr fun _ => eq_comm

theorem statementKind_eq_log_iff {p : Text} : statementKind p = .log ↔ startsLog p = true := by
  constructor
  · intro h
    rw [statementKind] at h
    split at h
    · cases h
    · split at h
      · dsimp only at h
        split at h
        · cases h
        · exact absurd h (Descriptor.bindingKind_ne_call true _).1
      · split at h
        · assumption
        · split at h
          · cases h
          · exact absurd h (Descriptor.bindingKind_ne_call false p).1
  · intro h
    obtain ⟨r, rfl⟩ := startsLog_iff.1 h
    rfl

/-- What is written in front of its blanks does not hold comments only. -/
theorem holdsOnlyComments_of_startsLog {p : Text} (h : startsLog (trim p) = true) :
    holdsOnlyComments (marks p) = false := by
  obtain ⟨b, b', hp, hb, hb'⟩ := exists_eq_blanks_trim_blanks p
  obtain ⟨r, hr⟩ := startsLog_iff.1 h
  have hmem : ⟨'c', .code, 0⟩ ∈ marks p := by
    rw [hp, marks_of_blanks hb hb', hr]
    exact List.mem_append_right _ (List.mem_append_left _ List.mem_cons_self)
  rw [holdsOnlyComments, Bool.and_eq_false_iff, List.all_eq_false]
  exact .inr ⟨⟨'c', .code, 0⟩, List.mem_filter.2 ⟨hmem, rfl⟩, by simp⟩

/-- **Log statements** are told from their texts. -/
theorem shape_eq_log_iff {p : Text} : shape p = .log ↔ startsLog (trim p) = true := by
  have hshape : shape p = if (trim p).isEmpty then .blank
      else if holdsOnlyComments (marks p) then .comment else statementKind (trim p) := by
    rw [shape, kindOf, chars_marks]
  rw [hshape]
  constructor
  · intro h
    split at h
    · cases h
    · split at h
      · cases h
      · exact statementKind_eq_log_iff.1 h
  · intro h
    have hne : (trim p).isEmpty = false := by
      obtain ⟨r, hr⟩ := startsLog_iff.1 h
      rw [hr]
      rfl
    rw [hne, holdsOnlyComments_of_startsLog h]
    exact statementKind_eq_log_iff.2 h

end ElementModules.Script

namespace ElementModules.Descriptor

open Text Script

/-! ### Diagnostic lines without blanks around them -/

/-- A text that does not start with a blank stands behind blanks if it stands behind or in them. -/
theorem infix_of_blanks_append {w b p : Text} (hw : ∀ c ∈ w.head?, isBlank c = false)
    (hb : ∀ c ∈ b, isBlank c = true) (h : w <:+: b ++ p) : w <:+: p := by
  induction b with
  | nil => exact h
  | cons c b ih =>
    rw [List.cons_append, List.infix_cons_iff] at h
    rcases h with h | h
    · cases w with
      | nil => exact List.nil_infix
      | cons d w =>
        obtain ⟨rfl, -⟩ := List.cons_prefix_cons.1 h
        have hd := hw d rfl
        rw [hb d List.mem_cons_self] at hd
        cases hd
    · exact ih (fun x hx => hb x (List.mem_cons_of_mem c hx)) h

theorem infix_of_append_blanks {w b p : Text} (hw : ∀ c ∈ w.getLast?, isBlank c = false)
    (hb : ∀ c ∈ b, isBlank c = true) (h : w <:+: p ++ b) : w <:+: p := by
  rw [← List.reverse_infix] at h ⊢
  rw [List.reverse_append] at h
  exact infix_of_blanks_append (by rwa [List.head?_reverse]) (by simpa using hb) h

/-- Blanks at the ends of a statement do not matter to whether it is diagnostic. -/
theorem isDiagnostic_trim (t : Text) : isDiagnostic (trim t) = isDiagnostic t := by
  obtain ⟨b, b', he, hb, hb'⟩ := exists_eq_blanks_trim_blanks t
  have hall : ∀ w ∈ logMarkers, w.head?.all (fun c => !isBlank c) = true
      ∧ w.getLast?.all (fun c => !isBlank c) = true := by decide
  have hends : ∀ w ∈ logMarkers, (∀ c ∈ w.head?, isBlank c = false)
      ∧ ∀ c ∈ w.getLast?, isBlank c = false := by
    simpa [Option.all_eq_true] using hall
  rw [Bool.eq_iff_iff]
  refine ⟨isDiagnostic_of_part ⟨b, b', he.symm⟩, fun h => ?_⟩
  rw [isDiagnostic, List.any_eq_true] at h ⊢
  obtain ⟨w, hw, hc⟩ := h
  rw [contains_iff, he] at hc
  exact ⟨w, hw, contains_iff.2 (infix_of_blanks_append (hends w hw).1 hb
    (infix_of_append_blanks (hends w hw).2 hb' hc))⟩

/-! ### The log statements of a text -/

/-- The log statements of a text, without blanks around them. -/
def logs (t : Text) : List Text :=
  ((segments t).filter fun s => s.kind = .log).map Segment.trimmed

/-- The log statements of a text that hold no part of the binding of its first literal. -/
def freeLogs (t : Text) : List Text :=
  ((segments t).filter fun s =>
    s.kind = .log && !isBound ((firstLiteral? t).map ObjectLiteral.statement) s).map Segment.trimmed

/-- The call, if it is read as a log statement. -/
def consoleCall (receiver identifier : Text) : List Text :=
  if receiver = "console" then [registrationCall receiver identifier] else []

/-- The log statements are told from the views of the statements. -/
theorem logs_eq_readStatements (t : Text) :
    logs t = ((readStatements viewOf t).filter fun v => v.1 = .log).map Prod.snd := by
  have hview : Prod.snd ∘ view = Segment.trimmed := rfl
  have hkind : (fun v : SegmentKind × Text => decide (v.1 = .log)) ∘ view
      = fun s : Segment => decide (s.kind = .log) := rfl
  have hstatement : (statements t).filter (fun s => s.kind = .log)
      = (segments t).filter fun s => s.kind = .log := by
    rw [statements, List.filter_filter]
    refine List.filter_congr fun s _ => ?_
    by_cases hk : s.kind = .log <;> simp [hk]
  rw [← map_view_statements, List.filter_map, List.map_map, hview, hkind, hstatement, logs]

/-- The log statements are told from the texts of the statements. -/
theorem logs_eq_filter (t : Text) :
    logs t = ((statements t).map Segment.trimmed).filter startsLog := by
  rw [List.filter_map, statements, List.filter_filter, logs]
  refine congrArg (List.map Segment.trimmed) (List.filter_congr fun s hs => ?_)
  have hk : s.kind = .log ↔ startsLog s.trimmed = true := by
    rw [(of_mem_segments hs).2]
    exact shape_eq_log_iff
  rw [Bool.eq_iff_iff, Function.comp_apply, Bool.and_eq_true, decide_eq_true_eq, decide_eq_true_eq,
    ← hk]
  exact ⟨fun h => ⟨h, by simp [h]⟩, And.left⟩

/-! ### Repairs -/

/-- **A call is read as a log statement** on the console only. -/
theorem startsLog_registrationCall {r x : Text} (hr : isName r = true) :
    startsLog (registrationCall r x) = true ↔ r = "console" := by
  have hcall : ∀ r, registrationCall r x = r ++ '.' :: (("register(" : Text) ++ x ++ ");") := by
    intro r
    have hword : (".register(" : Text) = '.' :: ("register(" : Text) := by decide
    rw [registrationCall, hword]
    simp
  rw [startsLog_iff]
  constructor
  · rintro ⟨w, hw⟩
    have hlog : ("console." : Text) ++ w = ("console" : Text) ++ '.' :: w := rfl
    rw [hcall, hlog] at hw
    have hname := congrArg Token.name? hw
    rw [Token.name?_append hr rfl, Token.name?_append (by decide) rfl] at hname
    exact (Prod.mk.inj (Option.some.inj hname)).1
  · rintro rfl
    exact ⟨("register(" : Text) ++ x ++ ");", hcall "console"⟩

/-- The log statements that segments leave in place. -/
def plainLogs (segs : List Segment) : List Text :=
  ((segs.filter fun s => s.kind = .log).map Segment.trimmed).filter fun p => !isDiagnostic p

theorem plainLogs_append (a b : List Segment) : plainLogs (a ++ b) = plainLogs a ++ plainLogs b := by
  simp [plainLogs]

theorem plainLogs_kept (receiver : Text) (segs : List Segment) :
    (((segs.filter (isKept receiver)).map view).filter fun v => v.1 = .log).map Prod.snd
      = plainLogs segs := by
  have hview : Prod.snd ∘ view = Segment.trimmed := rfl
  rw [plainLogs, List.filter_map, List.filter_map, List.map_map, hview, List.filter_filter,
    List.filter_filter]
  refine congrArg (List.map Segment.trimmed) (List.filter_congr fun s _ => ?_)
  simp only [Function.comp_apply, view, isKept, isSuperseded, isRegistrationOn, Segment.trimmed,
    isDiagnostic_trim]
  by_cases hk : s.kind = .log <;> simp [hk]

section Repaired

variable {c : Context} {t : Text} {l : ObjectLiteral} (hr : isName c.registry.receiver = true)
include hr

theorem logs_canonicalStatements (hl : firstLiteral? t = some l) :
    logs (canonicalStatements c l)
      = consoleCall c.registry.receiver l.identifier ++ [diagnosticOf c l] := by
  have hx := isName_identifier hl
  have hentry := (isLine_registrationCall hr hx).isEntry
  have hcall : trim (registrationCall c.registry.receiver l.identifier)
      = registrationCall c.registry.receiver l.identifier := by
    refine trim_eq_self ?_ hentry.last
    rw [registrationCall, List.append_assoc, List.append_assoc]
    exact head?_of_isName hr _
  have hlog := trim_diagnosticOf c l
  rw [trim_append_newline] at hlog
  have hshape : shape (registrationCall c.registry.receiver l.identifier) = .log
      ↔ c.registry.receiver = "console" := by
    rw [shape_eq_log_iff, hcall, startsLog_registrationCall hr]
  rw [logs_eq_readStatements, readStatements_canonicalStatements_eq skipsNewline_viewOf hr hl,
    consoleCall, viewOf, viewOf, hcall, hlog]
  by_cases h : c.registry.receiver = "console"
  · rw [if_pos h, hshape.2 h]
    rfl
  · rw [if_neg h, List.filter_cons_of_neg (by simpa using mt hshape.1 h)]
    rfl

variable {lead mid rest : List Segment} {site : Segment} {intro : Text}

/-- **The log statements of a repaired text**, along the cut of its plan. -/
theorem Planned.logs_repaired (h : Planned c l t lead mid site rest intro)
    (hb : isBalanced t = true) (hl : firstLiteral? t = some l) :
    logs (withoutBlankEnd (withLineEnd (draft c l t lead mid site rest intro)))
      = plainLogs (lead ++ mid ++ [site])
        ++ (consoleCall c.registry.receiver l.identifier ++ [diagnosticOf c l]) ++ plainLogs rest := by
  have hintro : logs intro = [] := by
    rcases h.intro_eq with ⟨-, -, rfl⟩ | ⟨-, s, -, -, -, rfl⟩
    · rfl
    · rw [logs_eq_readStatements, readStatements_header skipsNewline_viewOf hr]
      rfl
  have hview : (fun s : Segment => viewOf s.content) = view := rfl
  rw [← logs_canonicalStatements hr hl, logs_eq_readStatements,
    finish_induct (readStatements_append_newline skipsNewline_viewOf),
    h.readStatements_draft skipsNewline_viewOf hr hb hl, hview]
  simp only [List.filter_append, List.map_append, plainLogs_kept, plainLogs_append,
    ← logs_eq_readStatements, hintro, List.nil_append, List.append_assoc]

end Repaired

/-! ### Conversions -/

/-- What is true of some elements in front of all others cuts a list in two. -/
theorem filter_append_filter_not {α : Type} {p : α → Bool} {xs : List α}
    (h : xs.Pairwise fun a b => p b = true → p a = true) :
    xs.filter p ++ xs.filter (fun a => !p a) = xs := by
  induction xs with
  | nil => rfl
  | cons a xs ih =>
    rw [List.pairwise_cons] at h
    cases hp : p a with
    | true => simpa [hp] using ih h.2
    | false =>
      have hno : ∀ b ∈ xs, p b = false := fun b hb => by
        by_contra hc
        rw [Bool.not_eq_false] at hc
        rw [h.1 b hb hc] at hp
        cases hp
      have hnone : xs.filter p = [] := List.filter_eq_nil_iff.2 fun b hb => by simp [hno b hb]
      have hall : xs.filter (fun a => !p a) = xs :=
        List.filter_eq_self.2 fun b hb => by simp [hno b hb]
      rw [List.filter_cons_of_neg (by simp [hp]), List.filter_cons_of_pos (by simp [hp]), hnone, hall]
      rfl

/-- Segments in front of the binding stand in front of those behind it. -/
theorem pairwise_standsAhead (t : Text) :
    (segments t).Pairwise fun a b => standsAhead t b = true → standsAhead t a = true := by
  rw [List.pairwise_iff_forall_sublist]
  intro a b h ha
  obtain ⟨front, back, hsegs, hmem, hb⟩ := List.cons_sublist_iff.1 h
  obtain ⟨pre, post, rfl⟩ := List.append_of_mem hmem
  rw [List.append_assoc, List.cons_append] at hsegs
  obtain ⟨hstart, hstop⟩ := span_of_segments_eq hsegs
  have hle := span_stop_le_start hsegs (List.mem_append_right post (hb.subset List.mem_cons_self))
  rw [standsAhead, isAhead, Option.all_eq_true] at ha ⊢
  intro range hrange
  have hlt := ha range hrange
  rw [decide_eq_true_eq] at hlt ⊢
  omega

/-- The log statements that are carried over. -/
theorem filter_carriedOver (c : Context) (t : Text) :
    (carriedOver c t).filter (fun s => s.kind = .log) = (segments t).filter fun s =>
      (s.kind = .log && !isBound ((firstLiteral? t).map ObjectLiteral.statement) s)
        && !isDiagnostic s.text := by
  generalize hst : (firstLiteral? t).map ObjectLiteral.statement = statement
  have hopening : ((segments t).takeWhile (isOpening statement)).filter (fun s =>
      (s.kind = .log && !isBound statement s) && !isDiagnostic s.text) = [] := by
    rw [List.filter_eq_nil_iff]
    intro s hs
    have ho := List.mem_takeWhile_imp hs
    rw [isOpening, Bool.or_eq_true, Bool.or_eq_true, decide_eq_true_eq, decide_eq_true_eq] at ho
    rcases ho with (ho | ho) | ho <;> simp [ho]
  rw [carriedOver, hst, survivors, List.filter_filter]
  conv_rhs => rw [← List.takeWhile_append_dropWhile (p := isOpening statement) (l := segments t)]
  rw [List.filter_append, hopening, List.nil_append]
  refine List.filter_congr fun s _ => ?_
  rw [isCarried, frameStandsFor]
  by_cases hk : s.kind = .log <;> simp [hk]

/-- The log statements among the texts of segments. -/
theorem filter_startsLog {t : Text} {ss : List Segment} (h : ∀ s ∈ ss, s ∈ segments t) :
    (ss.map Segment.trimmed).filter startsLog
      = (ss.filter fun s => s.kind = .log).map Segment.trimmed := by
  rw [List.filter_map]
  refine congrArg (List.map Segment.trimmed) (List.filter_congr fun s hs => ?_)
  rw [Bool.eq_iff_iff, Function.comp_apply, decide_eq_true_eq, (of_mem_segments (h s hs)).2]
  exact shape_eq_log_iff.symm

namespace Frame

variable {f : Frame}

theorem filter_startsLog_opening (f : Frame) : f.opening.filter startsLog = [] := rfl

/-- The log statements that the frame writes behind the binding. -/
theorem filter_startsLog_ending (hr : isName f.registry.receiver = true) :
    f.ending.filter startsLog = consoleCall f.registry.receiver f.identifier ++ [f.logLine] := by
  have halias : f.aliasLines.filter startsLog = [] := by
    rw [aliasLines]
    split <;> rfl
  have hcall := startsLog_registrationCall (x := f.identifier) hr
  have hdefault : startsLog f.defaultLine = false := rfl
  have hlog : startsLog f.logLine = true := rfl
  rw [ending, List.filter_append, halias, List.nil_append, List.filter_cons_of_neg (by simp [hdefault]),
    consoleCall, callLine]
  by_cases h : f.registry.receiver = "console"
  · rw [if_pos h, List.filter_cons_of_pos (hcall.2 h), List.filter_cons_of_pos hlog]
    rfl
  · rw [if_neg h, List.filter_cons_of_neg (mt hcall.1 h), List.filter_cons_of_pos hlog]
    rfl

end Frame

/-- **The log statements of a converted module.** -/
theorem Writes.logs_eq {c : Context} {t out : Text} {f : Frame} {body : Text}
    {imports leading trailing : List Text} (h : Writes c t out f body imports leading trailing)
    (hb : isBalanced t = true) (hq : closesQuotes t = true)
    (hr : Script.isName c.registry.receiver = true) :
    ∃ ahead behind, (freeLogs t).filter (fun p => !isDiagnostic p) = ahead ++ behind
      ∧ logs out = ahead ++ logs (f.bindingStatement body ++ ['\n']) ++ behind
        ++ (consoleCall c.registry.receiver f.identifier ++ [f.logLine]) := by
  have hfree : (freeLogs t).filter (fun p => !isDiagnostic p)
      = ((carriedOver c t).filter fun s => s.kind = .log).map Segment.trimmed := by
    rw [filter_carriedOver, freeLogs, List.filter_map, List.filter_filter]
    refine congrArg (List.map Segment.trimmed) (List.filter_congr fun s _ => ?_)
    rw [Function.comp_apply, Segment.trimmed, isDiagnostic_trim, Bool.and_comm]
  have hmem : ∀ s ∈ carriedOver c t, s ∈ segments t := fun s hs => (mem_carriedOver hs).1
  have hside : ∀ p : Segment → Bool,
      (((carriedOver c t).filter fun s => !isImport s && p s).map Segment.trimmed).filter startsLog
        = (((carriedOver c t).filter fun s => s.kind = .log).filter p).map Segment.trimmed := by
    intro p
    rw [filter_startsLog fun s hs => hmem s (List.mem_of_mem_filter hs), List.filter_filter,
      List.filter_filter]
    refine congrArg (List.map Segment.trimmed) (List.filter_congr fun s _ => ?_)
    by_cases hk : s.kind = .log <;> simp [hk, isImport]
  have himports : (((carriedOver c t).filter isImport).map Segment.trimmed).filter startsLog = [] := by
    rw [filter_startsLog fun s hs => hmem s (List.mem_of_mem_filter hs), List.filter_filter,
      List.map_eq_nil_iff, List.filter_eq_nil_iff]
    intro s _
    by_cases hk : s.kind = .log <;> simp [hk, isImport]
  have hsorted : ((carriedOver c t).filter fun s => s.kind = .log).Pairwise
      fun a b => standsAhead t b = true → standsAhead t a = true := by
    rw [filter_carriedOver]
    exact (pairwise_standsAhead t).filter _
  refine ⟨(((carriedOver c t).filter fun s => s.kind = .log).filter (standsAhead t)).map
    Segment.trimmed, (((carriedOver c t).filter fun s => s.kind = .log).filter fun s =>
    !standsAhead t s).map Segment.trimmed, ?_, ?_⟩
  · rw [hfree, ← List.map_append, filter_append_filter_not hsorted]
  · rw [logs_eq_filter, h.map_trimmed_statements_eq hb hq hr]
    simp only [List.filter_append]
    rw [himports, Frame.filter_startsLog_opening, hside, hside, ← logs_eq_filter,
      Frame.filter_startsLog_ending (h.registry ▸ hr), h.registry, List.nil_append, List.nil_append]

/-- The binding is no log statement. -/
theorem Frame.startsLog_bindingStatement (f : Frame) (body : Text) :
    startsLog (f.bindingStatement body) = false := by
  rw [bindingStatement, bindingHead, bindingWords]
  split <;> rfl

theorem isBody_placeholderNote : IsBody placeholderNote := by
  refine ⟨?_, ?_⟩
  · rw [IsStrayless]
    decide +kernel
  · rw [endState_placeholderNote]
    exact ⟨rfl, rfl⟩

/-- The body of a draft can stand between braces unless it is that of a literal that is not closed. -/
theorem Drafts.isBody_keptBody_of_closed {c : Context} {t : Text} {d : Draft} (h : Drafts c t d)
    (hq : closesQuotes t = true) (hc : ∀ l ∈ firstLiteral? t, l.closing = .balanced) :
    IsBody d.keptBody := by
  cases hl : firstLiteral? t with
  | none =>
    rw [Draft.keptBody, h.body, hl]
    exact isBody_placeholderNote
  | some l => exact h.isBody_keptBody hq hl (hc l hl)

/-! ### What is rewritten -/

/-- **Log statements.** A repair of a balanced module takes the diagnostic lines away, wherever they
stand, and leaves all other log statements in their order, around the canonical statements. So does a
conversion with those that hold no part of the binding; a literal that is not closed may end early and
bring forth further log statements. -/
theorem logs_rewritten {c : Context} {t : Text} (hr : isName c.registry.receiver = true)
    (hb : isBalanced t = true) :
    (∀ out, repair c t = .ok out → ∃ l front back, firstLiteral? t = some l
        ∧ (logs t).filter (fun p => !isDiagnostic p) = front ++ back
        ∧ logs out = front
          ++ (consoleCall c.registry.receiver l.identifier ++ [diagnosticOf c l]) ++ back)
      ∧ ∀ out k, convert? c t = some (out, k) → closesQuotes t = true →
        ∃ x ahead inner behind, (∀ l ∈ firstLiteral? t, x = l.identifier)
          ∧ (freeLogs t).filter (fun p => !isDiagnostic p) = ahead ++ behind
          ∧ logs out = ahead ++ inner ++ behind
            ++ (consoleCall c.registry.receiver x ++ [diagnosticLine c.library c.category x])
          ∧ ((∀ l ∈ firstLiteral? t, l.closing = .balanced) → inner = []) := by
  refine ⟨fun out h => ?_, fun out k h hq => ?_⟩
  · obtain ⟨l, lead, mid, site, rest, intro, hl, -, hp, rfl⟩ := repair_eq_ok h
    refine ⟨l, plainLogs (lead ++ mid ++ [site]), plainLogs rest, hl, ?_, hp.logs_repaired hr hb hl⟩
    rw [← plainLogs_append, List.append_assoc, List.singleton_append, ← hp.segments_eq]
    rfl
  · have hd := drafts_draftOf c t
    obtain ⟨imports, leading, trailing, hw⟩ := hd.exists_writes
    rw [convert?] at h
    split at h
    · cases h
    · obtain ⟨rfl, -⟩ := Prod.mk.inj (Option.some.inj h)
      obtain ⟨ahead, behind, hfree, hout⟩ := hw.logs_eq hb hq hr
      rw [Frame.logLine, hw.library, hw.category] at hout
      refine ⟨_, ahead, _, behind, hw.identifier, hfree, hout, fun hc => ?_⟩
      rw [logs_eq_filter, hw.map_trimmed_bindingStatement hq (hd.isBody_keptBody_of_closed hq hc),
        List.filter_cons_of_neg (by simp [Frame.startsLog_bindingStatement])]
      rfl

/-- A module with log statements, some of them diagnostic. -/
def loggingModule : Text := ofLines
  ["console.log('start');", "const x = \x7b\x7d;", "console.warn('late', f(\x7b a: 1 \x7d));", "r.register(y);",
    "console.log('✅ y registrado');"]

theorem logs_rewritten_loggingModule :
    isName sampleContext.registry.receiver = true ∧ isBalanced loggingModule = true
      ∧ (∃ out front back, repair sampleContext loggingModule = .ok out
        ∧ [("console.log('start');" : Text), "console.warn('late', f(\x7b a: 1 \x7d));"] = front ++ back
        ∧ logs out = front ++ [("console.log('✔ [a] b/x');" : Text)] ++ back)
      ∧ ∃ out k, convert? sampleContext loggingModule = some (out, k)
        ∧ logs out = [("console.log('start');" : Text), "console.warn('late', f(\x7b a: 1 \x7d));"]
          ++ [("console.log('✔ [a] b/x');" : Text)] := by
  have hr : isName sampleContext.registry.receiver = true := by decide
  have hb : isBalanced loggingModule = true := by decide +kernel
  obtain ⟨hrepair, hconvert⟩ := logs_rewritten hr hb
  have hliteral : ∀ l ∈ firstLiteral? loggingModule, l.closing = .balanced ∧ l.identifier = "x"
      ∧ diagnosticOf sampleContext l = "console.log('✔ [a] b/x');" := by decide +kernel
  have hlogs : (logs loggingModule).filter (fun p => !isDiagnostic p)
      = [("console.log('start');" : Text), "console.warn('late', f(\x7b a: 1 \x7d));"] := by
    decide +kernel
  have hfree : (freeLogs loggingModule).filter (fun p => !isDiagnostic p)
      = [("console.log('start');" : Text), "console.warn('late', f(\x7b a: 1 \x7d));"] := by
    decide +kernel
  have hcall : ∀ x, consoleCall sampleContext.registry.receiver x = [] := fun _ => rfl
  refine ⟨hr, hb, ?_, ?_⟩
  · have hok : (repair sampleContext loggingModule).toOption.isSome = true := by decide +kernel
    cases hout : repair sampleContext loggingModule with
    | error e => rw [hout] at hok; cases hok
    | ok out =>
      obtain ⟨l, front, back, hl, hplain, he⟩ := hrepair out hout
      rw [hcall, (hliteral l hl).2.2, List.nil_append] at he
      exact ⟨out, front, back, rfl, hlogs.symm.trans hplain, he⟩
  · have hsome : (convert? sampleContext loggingModule).isSome = true := by decide +kernel
    obtain ⟨⟨out, k⟩, hout⟩ := Option.isSome_iff_exists.1 hsome
    obtain ⟨x, ahead, inner, behind, hx, hplain, he, hinner⟩ :=
      hconvert out k hout (by decide +kernel)
    have hone : (firstLiteral? loggingModule).isSome = true := by decide +kernel
    obtain ⟨l, hl⟩ := Option.isSome_iff_exists.1 hone
    have hline : diagnosticLine sampleContext.library sampleContext.category "x"
        = "console.log('✔ [a] b/x');" := by decide
    rw [hcall, hinner fun l hl => (hliteral l hl).1, hx l hl, (hliteral l hl).2.1, hline,
      List.append_nil, ← hplain, hfree] at he
    exact ⟨out, k, hout, he⟩

/-- A module with a warning. -/
def warningModule : Text := ofLines ["const x = \x7b\x7d;", "console.warn('not registered');"]

/-- A warning that something is not registered is lost, in a repair and in a conversion. -/
theorem logs_lost_warningModule :
    isBalanced warningModule = true ∧ freeLogs warningModule = ["console.warn('not registered');"]
      ∧ contains "✔ [" "console.warn('not registered');" = false
      ∧ contains "✅" "console.warn('not registered');" = false
      ∧ (repair sampleContext warningModule).map logs = .ok ["console.log('✔ [a] b/x');"]
      ∧ (convert? sampleContext warningModule).map (fun r => logs r.1)
        = some [("console.log('✔ [a] b/x');" : Text)] := by
  refine ⟨?_, ?_, ?_, ?_, ?_, ?_⟩ <;> decide +kernel

end ElementModules.Descriptor
