import ElementModules.Proofs.Script.Statements
import ElementModules.Text.Quoted
import Mathlib.Tactic.SplitIfs

/-!
# Scanning what is written

Programs write three kinds of text into a script: code without brackets, quotes and slashes
(**plain** text), brackets around it, and quoted strings. Each of them is scanned without looking at
what stands around it, and a script that is put together of them is scanned piece by piece.

A **line** ends with a semicolon outside all brackets, holds no line feed and no other semicolon in
code. It is one statement, and a line feed closes it.

## Main results

* `Scans.plain`, `Scans.opener`, `Scans.closer`, `Scans.quote`: scanning what is written.
* `IsLine.isPiece`, `IsLine.closedBy`, `IsLine.continues`: a line is one statement.
-/

namespace ElementModules.Script

open Text

/-- A character that leaves a scan of code where it is. -/
def isPlain (c : Char) : Bool :=
  !(c = '/' || c = '\'' || c = '"' || c = '\x60' || isOpener c || isCloser c)

/-- Marks of code. -/
def codeMarks (depth : Nat) (t : Text) : List Mark := t.map fun c => ⟨c, .code, depth⟩

/-- Marks of a string. -/
def literalMarks (depth : Nat) (t : Text) : List Mark := t.map fun c => ⟨c, .literal, depth⟩

@[simp] theorem chars_codeMarks (depth : Nat) (t : Text) : chars (codeMarks depth t) = t := by
  simp [chars, codeMarks, Function.comp_def]

@[simp] theorem chars_literalMarks (depth : Nat) (t : Text) : chars (literalMarks depth t) = t := by
  simp [chars, literalMarks, Function.comp_def]

/-- A scan of code with the open enclosures `st` reads a text as the given marks, whatever follows
it, and is in code again with the enclosures `st'`. -/
structure Scans (st : List Enclosure) (w : Text) (ms : List Mark) (st' : List Enclosure) :
    Prop where
  run : State.run ⟨.code, st⟩ w = ⟨.code, st'⟩
  marks : ∀ t, marksFrom ⟨.code, st⟩ (w ++ t) = ms ++ marksFrom ⟨.code, st'⟩ t

/-- A text that belongs to a quoted string around it and leaves it open. -/
structure StaysQuoted (q : Char) (w : Text) : Prop where
  run : ∀ st, State.run ⟨.quoted q, st⟩ w = ⟨.quoted q, st⟩
  marks : ∀ st t, marksFrom ⟨.quoted q, st⟩ (w ++ t)
    = literalMarks st.length w ++ marksFrom ⟨.quoted q, st⟩ t

namespace StaysQuoted

variable {q : Char}

theorem nil : StaysQuoted q [] := ⟨fun _ => rfl, fun _ _ => rfl⟩

theorem append {w w' : Text} (h : StaysQuoted q w) (h' : StaysQuoted q w') :
    StaysQuoted q (w ++ w') where
  run st := by rw [State.run_append, h.run, h'.run]
  marks st t := by
    rw [List.append_assoc, h.marks, h'.marks, literalMarks, literalMarks, literalMarks,
      List.map_append, List.append_assoc]

/-- A character behind a backslash. -/
theorem escaped (d : Char) : StaysQuoted q ['\\', d] := ⟨fun _ => rfl, fun _ _ => rfl⟩

/-- A character that stands for itself. -/
theorem char {c : Char} (hb : c ≠ '\\') (hn : c ≠ '\n') (hq : c ≠ q) : StaysQuoted q [c] where
  run st := by simp [State.step, hb, hn, hq]
  marks st t := by simp [marksFrom, State.layer, State.step, literalMarks, State.depth, hb, hn, hq]

theorem flatMap {f : Char → Text} (hf : ∀ c, StaysQuoted q (f c)) (m : Text) :
    StaysQuoted q (m.flatMap f) := by
  induction m with
  | nil => exact nil
  | cons c m ih => exact (hf c).append ih

end StaysQuoted

/-- The inside of a quoted string belongs to the string. -/
theorem staysQuoted_escape (m : Text) : StaysQuoted '\'' (escape m) := by
  refine .flatMap (fun c => ?_) m
  rw [escapeChar]
  split_ifs with h1 h2 h3 h4
  · exact .escaped '\\'
  · exact .escaped '\''
  · exact .escaped 'n'
  · exact .escaped 'r'
  · exact .char h1 h3 h2

namespace Scans

variable {st st₁ st₂ : List Enclosure}

theorem append {w w' : Text} {ms ms' : List Mark} (h : Scans st w ms st₁)
    (h' : Scans st₁ w' ms' st₂) : Scans st (w ++ w') (ms ++ ms') st₂ where
  run := by rw [State.run_append, h.run, h'.run]
  marks t := by rw [List.append_assoc, h.marks, h'.marks, List.append_assoc]

/-- One character. -/
theorem char {c : Char} {l : Layer} (hs : State.step ⟨.code, st⟩ c = ⟨.code, st₁⟩)
    (hl : ∀ next, State.layer ⟨.code, st⟩ c next = l) : Scans st [c] [⟨c, l, st.length⟩] st₁ where
  run := hs
  marks t := by
    rw [List.singleton_append, marksFrom, hs, hl]
    rfl

/-- Plain text is code and leaves the scan where it is. -/
theorem plain {w : Text} (hw : ∀ c ∈ w, isPlain c = true) (st : List Enclosure) :
    Scans st w (codeMarks st.length w) st := by
  induction w with
  | nil => exact ⟨rfl, fun _ => rfl⟩
  | cons c w ih =>
    have hc := hw c List.mem_cons_self
    simp only [isPlain, Bool.not_eq_true', Bool.or_eq_false_iff, decide_eq_false_iff_not] at hc
    obtain ⟨⟨⟨⟨⟨h1, h2⟩, h3⟩, h4⟩, h5⟩, h6⟩ := hc
    have hbrace : c ≠ '\x7d' := by rintro rfl; exact absurd h6 (by decide)
    have hchar : Scans st [c] [⟨c, .code, st.length⟩] st := by
      refine char ?_ fun next => ?_
      · simp [State.step, State.stepCode, h1, h2, h3, h4, h5, h6]
      · simp [State.layer, State.layerInCode, State.endsSubstitution, h1, h2, h3, h4, hbrace]
    exact hchar.append (ih fun d hd => hw d (by simp [hd]))

/-- A semicolon in code. -/
theorem semicolon : Scans [] [';'] (codeMarks 0 [';']) [] :=
  .plain (List.all_eq_true.1 rfl) []

/-- An opening bracket. -/
theorem opener {c : Char} (hc : isOpener c = true) (st : List Enclosure) :
    Scans st [c] (codeMarks st.length [c]) (.bracket :: st) := by
  simp only [isOpener, Bool.or_eq_true, decide_eq_true_eq] at hc
  rcases hc with (rfl | rfl) | rfl <;> exact char rfl fun _ => rfl

/-- A closing bracket. -/
theorem closer {c : Char} (hc : isCloser c = true) (st : List Enclosure) :
    Scans (.bracket :: st) [c] (codeMarks (st.length + 1) [c]) st := by
  simp only [isCloser, Bool.or_eq_true, decide_eq_true_eq] at hc
  rcases hc with (rfl | rfl) | rfl <;> exact char rfl fun _ => rfl

/-- What stays in a quoted string, between its quotes. -/
theorem quoted {q : Char} (hq : q = '\'' ∨ q = '"') {w : Text} (h : StaysQuoted q w)
    (st : List Enclosure) : Scans st (q :: w ++ [q]) (literalMarks st.length (q :: w ++ [q])) st := by
  have hopen : ∀ u, marksFrom ⟨.code, st⟩ (q :: u)
      = ⟨q, .literal, st.length⟩ :: marksFrom ⟨.quoted q, st⟩ u := by
    rcases hq with rfl | rfl <;> exact fun _ => rfl
  have hclose : ∀ u, marksFrom ⟨.quoted q, st⟩ (q :: u)
      = ⟨q, .literal, st.length⟩ :: marksFrom ⟨.code, st⟩ u := by
    rcases hq with rfl | rfl <;> exact fun _ => rfl
  have hstep : State.step ⟨.code, st⟩ q = ⟨.quoted q, st⟩ ∧ State.step ⟨.quoted q, st⟩ q = ⟨.code, st⟩ := by
    rcases hq with rfl | rfl <;> exact ⟨rfl, rfl⟩
  constructor
  · rw [List.cons_append, State.run_cons, State.run_append, hstep.1, h.run, State.run_cons, hstep.2]
    rfl
  · intro t
    rw [List.append_assoc, List.cons_append, List.singleton_append, hopen, h.marks, hclose]
    simp [literalMarks]

/-- A quoted string. -/
theorem quote (m : Text) (st : List Enclosure) :
    Scans st (quote m) (literalMarks st.length (Text.quote m)) st :=
  quoted (.inl rfl) (staysQuoted_escape m) st

theorem marks_eq {w : Text} {ms : List Mark} (h : Scans [] w ms st) : Script.marks w = ms := by
  have := h.marks []
  rwa [List.append_nil, marksFrom, List.append_nil] at this

end Scans

/-! ### Lines -/

/-- A statement on one line that ends with its only semicolon in code. -/
structure IsLine (w : Text) : Prop where
  marks_eq : ∃ ms, marks w = ms ++ [⟨';', .code, 0⟩] ∧ ∀ m ∈ ms, ¬ m.IsBound
  settled : endState w = .start

/-- Marks of which only the last can end a segment are not cut. -/
theorem stretches_concat_of_inner {ms : List Mark}
    (h : ∀ m ∈ ms, m.isTopLevel = true → m.char ≠ '\n' ∧ m.char ≠ ';') (x : Mark) :
    stretches (ms ++ [x]) = [ms ++ [x]] := by
  induction ms with
  | nil => exact stretches_singleton x
  | cons m ms ih =>
    have hm : endsSegment m (ms ++ [x]) = false := by
      rw [endsSegment_eq]
      cases ht : m.isTopLevel
      · rfl
      · obtain ⟨h₁, h₂⟩ := h m List.mem_cons_self ht
        simp [h₁, h₂]
    exact stretches_cons_of_not_ends hm (ih fun y hy => h y (List.mem_cons_of_mem m hy))

/-- Marks that end no segment are not cut. -/
theorem stretches_of_inner {ms : List Mark}
    (h : ∀ m ∈ ms, m.isTopLevel = true → m.char ≠ '\n' ∧ m.char ≠ ';') (hne : ms ≠ []) :
    stretches ms = [ms] := by
  obtain ⟨q, x, rfl⟩ := (List.eq_nil_or_concat ms).resolve_left hne
  rw [List.concat_eq_append] at h ⊢
  exact stretches_concat_of_inner (fun m hm => h m (List.mem_append_left _ hm)) x

/-- Marks without a bound are not cut. -/
theorem stretches_of_unbound {ms : List Mark} (h : ∀ m ∈ ms, ¬ m.IsBound) (x : Mark) :
    stretches (ms ++ [x]) = [ms ++ [x]] := by
  refine stretches_concat_of_inner (fun m hm ht => ?_) x
  simp only [Mark.isTopLevel, Mark.isCode, Bool.and_eq_true, decide_eq_true_eq] at ht
  exact ⟨fun hn => h m hm (.inl hn), fun hs => h m hm (.inr ⟨hs, ht.1⟩)⟩

namespace IsLine

/-- Text without bounds and a semicolon behind it make a line. -/
theorem of_scans {w : Text} {ms : List Mark} (h : Scans [] w ms []) (hb : ∀ m ∈ ms, ¬ m.IsBound) :
    IsLine (w ++ [';']) where
  marks_eq := ⟨ms, (h.append .semicolon).marks_eq, hb⟩
  settled := (h.append .semicolon).run

variable {w : Text} (h : IsLine w)
include h

/-- A line feed closes a line. -/
theorem closedBy : ClosedBy '\n' (w ++ ['\n']) :=
  ⟨w, rfl, by rw [h.settled]; exact ⟨rfl, rfl⟩⟩

theorem marks_newline : marks (w ++ ['\n']) = marks w ++ [⟨'\n', .code, 0⟩] :=
  marks_concat (by rw [h.settled]; exact ⟨rfl, rfl⟩) (by decide)

/-- **A line is one statement.** -/
theorem isPiece : IsPiece (w ++ ['\n']) := by
  obtain ⟨ms, hms, hb⟩ := h.marks_eq
  have hp : IsPiece w := by
    rw [IsPiece, hms]
    exact stretches_of_unbound hb _
  refine hp.append_newline fun hc => ?_
  have hl := hc.getLast?
  rw [← chars_marks w, hms] at hl
  simp [chars] at hl

/-- A line goes on behind a semicolon in front of it. -/
theorem continues (t : Text) : Script.continues (marks (w ++ '\n' :: t)) = true := by
  obtain ⟨ms, hms, hb⟩ := h.marks_eq
  have hm : marks (w ++ '\n' :: t) = marks w ++ marks ('\n' :: t) := by
    have hs : State.start.run w = .start := h.settled
    rw [marks, marksFrom_append_eq (by simp), hs]
    rfl
  rw [hm]
  refine continues_of_mem (e := ⟨';', .code, 0⟩) (by rw [hms]; simp) rfl rfl ?_ _
  intro x hx hc
  rw [hms, List.mem_append, List.mem_singleton] at hx
  rcases hx with hx | rfl
  · exact hb x hx (.inl hc)
  · exact absurd hc (by decide)

/-- A line meets every closed text in front of it in a seam. -/
theorem seam {a : Text} (ha : Closed a) (t : Text) : Seam a (w ++ '\n' :: t) :=
  ha.imp id fun hc => ⟨hc, h.continues t⟩

end IsLine

end ElementModules.Script
