import ElementModules.Descriptor.Frame
import ElementModules.Proofs.Script.Listings

/-!
# The header comment

A module starts with a block comment that holds the label, the library and the category. These may be
any texts: `inHeader` parts a star from a slash behind it, so the comment is not closed before its end
(`comments_inHeader`). So the header is one comment, whatever it holds
(`Frame.isEntry_headerComment`).

## Main results

* `comments_inHeader`: a text in the header does not end the comment.
* `Frame.isEntry_headerComment`: the header is one comment.
-/

namespace ElementModules.Script

open Text

/-- Whether a scan is in a block comment that the next character does not close. -/
def State.IsInside (s : State) (next : Option Char) : Prop :=
  s.mode = .blockComment ∨ (s.mode = .blockStar ∧ next ≠ some '/')

/-- A scan from `s` to `s'` reads all of a text as comment, whatever follows it. -/
structure Comments (s : State) (w : Text) (s' : State) : Prop where
  run : s.run w = s'
  marks : ∀ t, ∃ ms, marksFrom s (w ++ t) = ms ++ marksFrom s' t ∧ ∀ m ∈ ms, m.layer = .comment

namespace Comments

variable {s s₁ s₂ : State}

theorem nil (s : State) : Comments s [] s := ⟨rfl, fun _ => ⟨[], rfl, by simp⟩⟩

theorem append {w w' : Text} (h : Comments s w s₁) (h' : Comments s₁ w' s₂) :
    Comments s (w ++ w') s₂ where
  run := by rw [State.run_append, h.run, h'.run]
  marks t := by
    obtain ⟨ms, hm, hc⟩ := h.marks (w' ++ t)
    obtain ⟨ms', hm', hc'⟩ := h'.marks t
    refine ⟨ms ++ ms', by rw [List.append_assoc, hm, hm', List.append_assoc], ?_⟩
    exact fun m h => (List.mem_append.1 h).elim (hc m) (hc' m)

/-- A character inside a block comment. -/
theorem char {c : Char} (hs : State.IsInside s (some c)) :
    Comments s [c] ⟨if c = '*' then .blockStar else .blockComment, s.stack⟩ := by
  obtain ⟨mode, stack⟩ := s
  have hstep : State.step ⟨mode, stack⟩ c
      = ⟨if c = '*' then .blockStar else .blockComment, stack⟩ := by
    rcases hs with rfl | ⟨rfl, hc⟩
    · simp only [State.step]
      split_ifs <;> rfl
    · have hc : c ≠ '/' := fun he => hc (he ▸ rfl)
      simp only [State.step, if_neg hc]
      split_ifs <;> rfl
  have hlayer : ∀ next, State.layer ⟨mode, stack⟩ c next = .comment := by
    intro next
    rcases hs with rfl | ⟨rfl, -⟩ <;> rfl
  refine ⟨hstep, fun t => ⟨[⟨c, .comment, stack.length⟩], ?_, by simp⟩⟩
  rw [List.singleton_append, marksFrom, hstep, hlayer]
  rfl

/-- A text without slashes, and a blank behind it. -/
theorem plain {w : Text} (hw : '/' ∉ w) (hs : s.mode = .blockComment ∨ s.mode = .blockStar) :
    Comments s (w ++ [' ']) ⟨.blockComment, s.stack⟩ := by
  have hinside : ∀ {c : Char}, c ≠ '/' → ∀ {s : State}, s.mode = .blockComment ∨ s.mode = .blockStar →
      State.IsInside s (some c) := fun hc _ hs =>
    hs.imp id fun h => ⟨h, fun he => hc (Option.some.inj he)⟩
  induction w generalizing s with
  | nil => exact char (hinside (by decide) hs)
  | cons c w ih =>
    rw [List.mem_cons, not_or] at hw
    refine (char (hinside (Ne.symm hw.1) hs)).append
      (ih hw.2 (s := ⟨if c = '*' then .blockStar else .blockComment, s.stack⟩) ?_)
    show (if c = '*' then Mode.blockStar else .blockComment) = _ ∨ _
    split_ifs <;> simp

/-- A block comment is opened. -/
theorem opening : Comments .start ['/', '*'] ⟨.blockComment, []⟩ :=
  ⟨rfl, fun t => ⟨[⟨'/', .comment, 0⟩, ⟨'*', .comment, 0⟩], rfl, by simp⟩⟩

/-- A block comment is closed. -/
theorem closing : Comments ⟨.blockComment, []⟩ ['*', '/'] .start :=
  ⟨rfl, fun t => ⟨[⟨'*', .comment, 0⟩, ⟨'/', .comment, 0⟩], rfl, by simp⟩⟩

end Comments

/-- A text that is read as comment from its start to its end is one comment. -/
theorem isEntry_of_comments {w : Text} (h : Comments .start w .start) (hne : w ≠ [])
    (hlast : ∀ c ∈ w.getLast?, isBlank c = false) : IsEntry w ∧ shape w = .comment := by
  obtain ⟨ms, hw, hc⟩ := h.marks []
  have hmarks : marks w = ms := by
    rwa [List.append_nil, marksFrom, List.append_nil] at hw
  have hms : ms ≠ [] := by
    rintro rfl
    exact hne (by rw [← chars_marks w, hmarks]; rfl)
  have hentry : IsEntry w := by
    refine ⟨?_, ?_, hlast⟩
    · rw [isBalanced, endState, h.run]
      rfl
    · rw [IsPiece, hmarks]
      refine stretches_of_inner (fun m hm ht => ?_) hms
      rw [Mark.isTopLevel, Mark.isCode, hc m hm] at ht
      cases ht
  refine ⟨hentry, ?_⟩
  have ht : (trim w).isEmpty = false := List.isEmpty_eq_false_iff.2 hentry.trim_ne_nil
  have ho : holdsOnlyComments ms = true := by
    simp only [holdsOnlyComments, Bool.and_eq_true, Bool.not_eq_true', List.all_eq_true,
      List.mem_filter, decide_eq_true_eq, and_imp]
    refine ⟨?_, fun m hm _ => hc m hm⟩
    obtain ⟨q, c, rfl⟩ := (List.eq_nil_or_concat w).resolve_left hne
    rw [List.concat_eq_append] at hmarks hlast
    have hcm : c ∈ chars ms := by rw [← hmarks, chars_marks]; simp
    obtain ⟨m, hm, rfl⟩ := List.mem_map.1 hcm
    have hb : isBlank m.char = false := hlast m.char (by simp)
    refine List.isEmpty_eq_false_iff.2 (List.ne_nil_of_mem (List.mem_filter.2 ⟨hm, ?_⟩))
    by_contra ha
    rw [Bool.not_eq_true, Bool.not_eq_false'] at ha
    rw [isBlank_of_isAsciiBlank ha] at hb
    cases hb
  rw [shape, kindOf, chars_marks, hmarks, ht, ho]
  rfl

end ElementModules.Script

namespace ElementModules.Descriptor

open Text Script

/-- **A text in the header** does not end the comment. -/
theorem comments_inHeader (t : Text) {s : State} (hs : s.IsInside t.head?) :
    ∃ mode, (mode = .blockComment ∨ mode = .blockStar)
      ∧ Comments s (inHeader t) ⟨mode, s.stack⟩ := by
  have hmode : ∀ {s : State} {next}, s.IsInside next → s.mode = .blockComment ∨ s.mode = .blockStar :=
    fun h => h.imp id And.left
  have hline : ∀ {s : State} {c : Char}, s.IsInside (some c) →
      s.IsInside (some (if c = '\n' then ' ' else c)) := by
    intro s c h
    refine h.imp id fun ⟨h₁, h₂⟩ => ⟨h₁, ?_⟩
    split_ifs
    · decide
    · exact h₂
  fun_induction inHeader t generalizing s with
  | case1 => exact ⟨s.mode, hmode hs, .nil s⟩
  | case2 c =>
    refine ⟨_, ?_, Comments.char (hline hs)⟩
    split_ifs <;> simp
  | case3 c d t h ih =>
    obtain ⟨rfl, rfl⟩ : c = '*' ∧ d = '/' := by simpa using h
    obtain ⟨mode, hm, hc⟩ := ih (s := ⟨.blockComment, s.stack⟩) (.inl rfl)
    refine ⟨mode, hm, ?_⟩
    have hstar : Comments s ['*'] ⟨.blockStar, s.stack⟩ := Comments.char hs
    have hblank : Comments ⟨.blockStar, s.stack⟩ [' '] ⟨.blockComment, s.stack⟩ :=
      Comments.char (.inr ⟨rfl, by decide⟩)
    have hslash : Comments ⟨.blockComment, s.stack⟩ ['/'] ⟨.blockComment, s.stack⟩ :=
      Comments.char (.inl rfl)
    exact ((hstar.append hblank).append hslash).append hc
  | case4 c d t h ih =>
    have hchar := Comments.char (hline hs)
    obtain ⟨mode, hm, hc⟩ := ih (s := ⟨if (if c = '\n' then ' ' else c) = '*' then .blockStar
      else .blockComment, s.stack⟩) (by
        by_cases hstar : c = '*'
        · subst hstar
          exact .inr ⟨rfl, fun hd => h (by simpa using hd)⟩
        · refine .inl (if_neg ?_)
          split_ifs
          · decide
          · exact hstar)
    exact ⟨mode, hm, hchar.append hc⟩

namespace Frame

/-- The header comment without the line feed behind it. -/
def headerComment (f : Frame) : Text :=
  ['/', '*'] ++ (("*\n *" : Text) ++ [' ']) ++ inHeader f.label
    ++ (("\n * Library:" : Text) ++ [' ']) ++ inHeader f.library
    ++ ((" | Category:" : Text) ++ [' ']) ++ inHeader f.category ++ (['\n'] ++ [' ']) ++ ['*', '/']

theorem header_eq (f : Frame) : f.header = f.headerComment ++ ['\n'] := by
  have h₁ : ("/**\n * " : Text) = ['/', '*'] ++ (("*\n *" : Text) ++ [' ']) := by decide
  have h₂ : ("\n * Library: " : Text) = ("\n * Library:" : Text) ++ [' '] := by decide
  have h₃ : (" | Category: " : Text) = (" | Category:" : Text) ++ [' '] := by decide
  have h₄ : ("\n */\n" : Text) = (['\n'] ++ [' ']) ++ ['*', '/'] ++ ['\n'] := by decide
  have h : f.header = ("/**\n * " : Text) ++ inHeader f.label ++ ("\n * Library: " : Text)
      ++ inHeader f.library ++ (" | Category: " : Text) ++ inHeader f.category
      ++ ("\n */\n" : Text) := rfl
  rw [h, h₁, h₂, h₃, h₄, headerComment]
  simp only [List.append_assoc]

theorem comments_headerComment (f : Frame) : Comments .start f.headerComment .start := by
  have hfree : ∀ {w : Text}, decide ('/' ∉ w) = true → '/' ∉ w := fun h => of_decide_eq_true h
  have hinside : ∀ t : Text, State.IsInside ⟨.blockComment, []⟩ t.head? := fun _ => .inl rfl
  obtain ⟨m₁, h₁, hlabel⟩ := comments_inHeader f.label (hinside _)
  obtain ⟨m₂, h₂, hlibrary⟩ := comments_inHeader f.library (hinside _)
  obtain ⟨m₃, h₃, hcategory⟩ := comments_inHeader f.category (hinside _)
  have hstart := Comments.plain (s := ⟨.blockComment, []⟩) (w := "*\n *") (hfree (by decide))
    (.inl rfl)
  have hmiddle := Comments.plain (s := ⟨m₁, []⟩) (w := "\n * Library:")
    (hfree (by decide)) h₁
  have hmiddle' := Comments.plain (s := ⟨m₂, []⟩) (w := " | Category:")
    (hfree (by decide)) h₂
  have hend := Comments.plain (s := ⟨m₃, []⟩) (w := ['\n']) (hfree (by decide)) h₃
  exact (((((((Comments.opening.append hstart).append hlabel).append hmiddle).append
    hlibrary).append hmiddle').append hcategory).append hend).append .closing

/-- **The header** is one comment. -/
theorem isEntry_headerComment (f : Frame) :
    IsEntry f.headerComment ∧ shape f.headerComment = .comment := by
  have hlast : f.headerComment.getLast? = some '/' := by
    rw [headerComment, List.getLast?_append]
    rfl
  refine isEntry_of_comments f.comments_headerComment ?_ fun c hc => ?_
  · rintro he
    rw [he] at hlast
    cases hlast
  · rw [hlast] at hc
    obtain rfl := Option.some.inj hc
    rfl

end Frame

end ElementModules.Descriptor
