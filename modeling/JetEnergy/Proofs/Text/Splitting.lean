import JetEnergy.Proofs.Lists
import JetEnergy.Text.Blank
import JetEnergy.Text.Lines

/-!
  The lines and words of texts that are put together.

  * `lines_append`: where a text ends with a line feed, its lines end too, and
    what follows has lines of its own.
  * `lines_ended`: lines that are written down are read back.
  * `words_spaced`: words with spaces between them are read back.
    `words_append_gap`: what stands between two words is of no account.
  * `length_le_of_mem_lines`, `length_words_le`: neither a line nor the number of
    words exceeds the length of the text.
-/
namespace JetEnergy.Text

/-! ## Lines -/

/-- A text that is empty or ends with a line feed. -/
def Terminated (text : List Char) : Prop :=
  text = [] ∨ text.getLast? = some '\n'

namespace LinesSoFar

/-- What has been read before only stands below what is read next. -/
theorem foldl_step (text : List Char) (s : LinesSoFar) :
    text.foldl step s =
      ⟨(text.foldl step ⟨[], s.current⟩).finished ++ s.finished,
        (text.foldl step ⟨[], s.current⟩).current⟩ := by
  induction text generalizing s with
  | nil => rfl
  | cons c text ih =>
    by_cases hc : c = '\n'
    · have hstep : ∀ finished, step ⟨finished, s.current⟩ c =
          ⟨(dropReturn s.current).reverse :: finished, []⟩ := fun _ => if_pos hc
      rw [List.foldl_cons, List.foldl_cons, hstep s.finished, hstep [], ih ⟨_ :: s.finished, _⟩,
        ih ⟨[_], _⟩]
      simp
    · have hstep : ∀ finished, step ⟨finished, s.current⟩ c = ⟨finished, c :: s.current⟩ :=
        fun _ => if_neg hc
      rw [List.foldl_cons, List.foldl_cons, hstep s.finished, hstep [], ih ⟨s.finished, _⟩]

/-- A text without line feeds belongs to the line under way. -/
theorem foldl_step_line {line : List Char} (h : '\n' ∉ line) (s : LinesSoFar) :
    line.foldl step s = ⟨s.finished, line.reverse ++ s.current⟩ := by
  induction line generalizing s with
  | nil => rfl
  | cons c line ih =>
    obtain ⟨hc, hline⟩ := not_or.1 (mt List.mem_cons.2 h)
    rw [List.foldl_cons, step, if_neg (Ne.symm hc), ih hline]
    simp

theorem dropReturn_eq_self {line : List Char} (h : '\r' ∉ line) : dropReturn line = line := by
  unfold dropReturn
  split
  · simp at h
  · rfl

end LinesSoFar

theorem current_of_terminated {text : List Char} (h : Terminated text) :
    (text.foldl LinesSoFar.step {}).current = [] := by
  rcases h with rfl | h
  · rfl
  · obtain ⟨body, rfl⟩ := List.getLast?_eq_some_iff.1 h
    rw [List.foldl_append, List.foldl_cons, List.foldl_nil, LinesSoFar.step, if_pos rfl]

/-- Texts split apart after a line feed. -/
theorem lines_append {a : List Char} (h : Terminated a) (b : List Char) :
    lines (a ++ b) = lines a ++ lines b := by
  have hcurrent := current_of_terminated h
  have hfold := LinesSoFar.foldl_step b (a.foldl LinesSoFar.step {})
  rw [hcurrent] at hfold
  rw [lines, List.foldl_append, hfold, lines, lines, LinesSoFar.lines, LinesSoFar.lines,
    LinesSoFar.lines, hcurrent]
  dsimp only
  split <;> simp

/-- A line with its line feed, and the carriage return before it dropped. -/
theorem lines_ended_line {line : List Char} (hfeed : '\n' ∉ line) :
    lines (line ++ ['\n']) = [(LinesSoFar.dropReturn line.reverse).reverse] := by
  rw [lines, List.foldl_append, LinesSoFar.foldl_step_line hfeed, List.foldl_cons, List.foldl_nil,
    LinesSoFar.step, if_pos rfl, List.append_nil]
  rfl

/-- A line at the end of a text. -/
theorem lines_last {line : List Char} (hfeed : '\n' ∉ line) (hne : line ≠ []) :
    lines line = [line] := by
  rw [lines, LinesSoFar.foldl_step_line hfeed, List.append_nil, LinesSoFar.lines,
    if_neg (by simpa using hne), List.reverse_reverse]
  rfl

theorem lines_cons {line : List Char} (hfeed : '\n' ∉ line) (hreturn : '\r' ∉ line)
    (rest : List Char) : lines (line ++ '\n' :: rest) = line :: lines rest := by
  have hline : lines (line ++ ['\n']) = [line] := by
    rw [lines_ended_line hfeed, LinesSoFar.dropReturn_eq_self (mt List.mem_reverse.1 hreturn),
      List.reverse_reverse]
  have happend := lines_append (Or.inr (List.getLast?_eq_some_iff.2 ⟨line, rfl⟩)) rest
  rw [hline, List.append_assoc] at happend
  exact happend

/-- Lines with a line feed after each. -/
def ended (ls : List (List Char)) : List Char :=
  ls.flatMap (· ++ ['\n'])

theorem ended_cons (l : List Char) (ls : List (List Char)) :
    ended (l :: ls) = l ++ '\n' :: ended ls := by
  rw [ended, List.flatMap_cons, List.append_assoc]
  rfl

theorem lines_ended {ls : List (List Char)} (h : ∀ l ∈ ls, '\n' ∉ l ∧ '\r' ∉ l) :
    lines (ended ls) = ls := by
  induction ls with
  | nil => rfl
  | cons l ls ih =>
    obtain ⟨⟨hfeed, hreturn⟩, hls⟩ := List.forall_mem_cons.1 h
    rw [ended_cons, lines_cons hfeed hreturn, ih hls]

theorem length_le_length_ended {ls : List (List Char)} {l : List Char} (h : l ∈ ls) :
    l.length ≤ (ended ls).length := by
  obtain ⟨above, below, rfl⟩ := List.append_of_mem h
  rw [ended, List.flatMap_append, List.flatMap_cons]
  simp only [List.length_append]
  omega

namespace LinesSoFar

/-- Every line read so far is at most `n` characters long. -/
def AtMost (n : Nat) (s : LinesSoFar) : Prop :=
  (∀ l ∈ s.finished, l.length ≤ n) ∧ s.current.length ≤ n

theorem length_dropReturn_le (line : List Char) : (dropReturn line).length ≤ line.length := by
  unfold dropReturn
  split
  · exact Nat.le_succ _
  · exact Nat.le_refl _

theorem AtMost.step {n : Nat} {s : LinesSoFar} (h : s.AtMost n) (c : Char) :
    (s.step c).AtMost (n + 1) := by
  obtain ⟨hfinished, hcurrent⟩ := h
  have hlater : ∀ l ∈ s.finished, l.length ≤ n + 1 := fun l hl => Nat.le_succ_of_le (hfinished l hl)
  rw [LinesSoFar.step]
  split
  · refine ⟨List.forall_mem_cons.2 ⟨?_, hlater⟩, Nat.zero_le _⟩
    rw [List.length_reverse]
    exact Nat.le_trans (length_dropReturn_le _) (Nat.le_succ_of_le hcurrent)
  · exact ⟨hlater, Nat.succ_le_succ hcurrent⟩

theorem AtMost.foldl {n : Nat} {s : LinesSoFar} (h : s.AtMost n) (text : List Char) :
    (text.foldl LinesSoFar.step s).AtMost (n + text.length) := by
  induction text generalizing n s with
  | nil => exact h
  | cons c text ih =>
    rw [List.foldl_cons, List.length_cons, Nat.add_comm text.length, ← Nat.add_assoc]
    exact ih (h.step c)

end LinesSoFar

/-- No line is longer than its text. -/
theorem length_le_of_mem_lines {text line : List Char} (h : line ∈ lines text) :
    line.length ≤ text.length := by
  have hempty : LinesSoFar.AtMost 0 {} := ⟨List.forall_mem_nil _, Nat.le_refl _⟩
  obtain ⟨hfinished, hcurrent⟩ := hempty.foldl text
  rw [Nat.zero_add] at hfinished hcurrent
  rw [lines, LinesSoFar.lines, List.mem_reverse] at h
  split at h
  · exact hfinished line h
  · rcases List.mem_cons.1 h with rfl | h
    · rwa [List.length_reverse]
    · exact hfinished line h

/-! ## Words -/

/-- A text that can be a word: it is not empty and has no blank character. -/
def IsWord (w : List Char) : Prop :=
  w ≠ [] ∧ ∀ c ∈ w, isBlank c = false

instance : DecidablePred IsWord := fun w =>
  decidable_of_iff (w.isEmpty = false ∧ w.any isBlank = false) (by simp [IsWord])

namespace WordsSoFar

theorem close_of_ne_nil {finished : List (List Char)} {current : List Char} (h : current ≠ []) :
    close ⟨finished, current⟩ = ⟨current.reverse :: finished, []⟩ :=
  if_neg (by simpa using h)

/-- What has been read before only stands below what is read next. -/
theorem foldl_step (text : List Char) (s : WordsSoFar) :
    text.foldl step s =
      ⟨(text.foldl step ⟨[], s.current⟩).finished ++ s.finished,
        (text.foldl step ⟨[], s.current⟩).current⟩ := by
  induction text generalizing s with
  | nil => rfl
  | cons c text ih =>
    obtain ⟨finished, current⟩ := s
    cases hc : isBlank c with
    | true =>
      have hstep : ∀ finished, step ⟨finished, current⟩ c = close ⟨finished, current⟩ :=
        fun _ => if_pos hc
      simp only [List.foldl_cons, hstep]
      by_cases hcurrent : current = []
      · subst hcurrent
        exact ih ⟨finished, []⟩
      · rw [close_of_ne_nil hcurrent, close_of_ne_nil hcurrent, ih ⟨_ :: finished, _⟩, ih ⟨[_], _⟩]
        simp
    | false =>
      have hstep : ∀ finished, step ⟨finished, current⟩ c = ⟨finished, c :: current⟩ :=
        fun _ => if_neg (by simp [hc])
      simp only [List.foldl_cons, hstep]
      exact ih ⟨finished, c :: current⟩

/-- A text without blank characters belongs to the word under way. -/
theorem foldl_step_word {w : List Char} (h : ∀ c ∈ w, isBlank c = false) (s : WordsSoFar) :
    w.foldl step s = ⟨s.finished, w.reverse ++ s.current⟩ := by
  induction w generalizing s with
  | nil => rfl
  | cons c w ih =>
    obtain ⟨hc, hw⟩ := List.forall_mem_cons.1 h
    rw [List.foldl_cons, step, if_neg (by simp [hc]), ih hw]
    simp

/-- What a text read so far can have left of words: the finished ones, and one
    for each character under way. -/
def size (s : WordsSoFar) : Nat :=
  s.finished.length + s.current.length

theorem size_close_le (s : WordsSoFar) : s.close.size ≤ s.size := by
  rw [close]
  split
  · exact Nat.le_refl _
  · next hne =>
    have hpos : 0 < s.current.length := List.length_pos_iff.2 (by simpa using hne)
    rw [size, size, List.length_cons, List.length_nil]
    omega

theorem size_step_le (s : WordsSoFar) (c : Char) : (s.step c).size ≤ s.size + 1 := by
  rw [step]
  split
  · exact Nat.le_succ_of_le s.size_close_le
  · exact Nat.le_refl _

theorem size_foldl_le (text : List Char) (s : WordsSoFar) :
    (text.foldl step s).size ≤ s.size + text.length := by
  induction text generalizing s with
  | nil => exact Nat.le_refl _
  | cons c text ih =>
    have hstep := s.size_step_le c
    have hrest := ih (s.step c)
    rw [List.foldl_cons, List.length_cons]
    omega

end WordsSoFar

/-- A text has no more words than characters. -/
theorem length_words_le (text : List Char) : (words text).length ≤ text.length := by
  have hclose := (text.foldl WordsSoFar.step {}).size_close_le
  have hfold := WordsSoFar.size_foldl_le text {}
  rw [words, List.length_reverse]
  simp only [WordsSoFar.size, List.length_nil, Nat.zero_add] at *
  omega

theorem words_self {w : List Char} (h : IsWord w) : words w = [w] := by
  rw [words, WordsSoFar.foldl_step_word h.2, WordsSoFar.close_of_ne_nil (by simpa using h.1)]
  simp

/-- A blank character keeps the words on either side apart. -/
theorem words_append_blank (a : List Char) {c : Char} (hc : isBlank c = true) (b : List Char) :
    words (a ++ c :: b) = words a ++ words b := by
  rw [words, List.foldl_append, List.foldl_cons, words, words]
  generalize a.foldl WordsSoFar.step {} = s
  rw [WordsSoFar.step, if_pos hc, WordsSoFar.foldl_step]
  have hclosed : s.close.current = [] := by
    unfold WordsSoFar.close
    split
    · next h => exact List.isEmpty_iff.1 h
    · rfl
  rw [hclosed]
  generalize b.foldl WordsSoFar.step ⟨[], []⟩ = t
  obtain ⟨finished, current⟩ := t
  by_cases hcurrent : current = []
  · subst hcurrent; simp [WordsSoFar.close]
  · rw [WordsSoFar.close_of_ne_nil hcurrent, WordsSoFar.close_of_ne_nil hcurrent]
    simp

theorem words_cons {w : List Char} (h : IsWord w) {c : Char} (hc : isBlank c = true)
    (rest : List Char) : words (w ++ c :: rest) = w :: words rest := by
  rw [words_append_blank w hc, words_self h]
  rfl

/-- Blank characters only. -/
def AllBlank (text : List Char) : Prop :=
  ∀ c ∈ text, isBlank c = true

instance (text : List Char) : Decidable (AllBlank text) :=
  decidable_of_iff (text.all isBlank = true) List.all_eq_true

theorem words_blanks_append {blanks : List Char} (h : AllBlank blanks) (text : List Char) :
    words (blanks ++ text) = words text := by
  induction blanks with
  | nil => rfl
  | cons c blanks ih =>
    obtain ⟨hc, hblanks⟩ := List.forall_mem_cons.1 h
    exact (words_append_blank [] hc _).trans (ih hblanks)

theorem words_blanks {blanks : List Char} (h : AllBlank blanks) : words blanks = [] := by
  rw [← List.append_nil blanks, words_blanks_append h]
  rfl

/-- A gap of blank characters keeps the words on either side apart. -/
theorem words_append_gap (a : List Char) {gap : List Char} (hne : gap ≠ []) (h : AllBlank gap)
    (b : List Char) : words (a ++ gap ++ b) = words a ++ words b := by
  obtain ⟨c, blanks, rfl⟩ := List.exists_cons_of_ne_nil hne
  obtain ⟨hc, hblanks⟩ := List.forall_mem_cons.1 h
  rw [List.append_assoc, List.cons_append, words_append_blank a hc, words_blanks_append hblanks]

theorem words_append_blanks (a : List Char) {blanks : List Char} (h : AllBlank blanks) :
    words (a ++ blanks) = words a := by
  by_cases hne : blanks = []
  · rw [hne, List.append_nil]
  · rw [← List.append_nil (a ++ blanks), words_append_gap a hne h]
    exact List.append_nil _

/-- Words with a space between each two. -/
def spaced (ws : List (List Char)) : List Char :=
  [' '].intercalate ws

theorem spaced_cons_cons (w w' : List Char) (ws : List (List Char)) :
    spaced (w :: w' :: ws) = w ++ ' ' :: spaced (w' :: ws) := by
  rw [spaced, List.intercalate_cons_cons, List.append_assoc]
  rfl

theorem words_spaced {ws : List (List Char)} (h : ∀ w ∈ ws, IsWord w) : words (spaced ws) = ws := by
  induction ws with
  | nil => rfl
  | cons w ws ih =>
    obtain ⟨hw, hws⟩ := List.forall_mem_cons.1 h
    cases ws with
    | nil =>
      rw [spaced, List.intercalate_singleton]
      exact words_self hw
    | cons w' ws => rw [spaced_cons_cons, words_cons hw rfl, ih hws]

theorem not_mem_spaced {ws : List (List Char)} (h : ∀ w ∈ ws, IsWord w) {c : Char}
    (hc : isBlank c = true) (hspace : c ≠ ' ') : c ∉ spaced ws := by
  intro hmem
  rcases mem_intercalate hmem with rfl | ⟨w, hw, hcw⟩
  · exact hspace rfl
  · rw [(h w hw).2 c hcw] at hc; cases hc

/-- Words take a character each, at least. -/
theorem length_le_length_spaced {ws : List (List Char)} (h : ∀ w ∈ ws, IsWord w) :
    ws.length ≤ (spaced ws).length := by
  induction ws with
  | nil => exact Nat.le_refl 0
  | cons w ws ih =>
    obtain ⟨hw, hws⟩ := List.forall_mem_cons.1 h
    have hpos : 0 < w.length := List.length_pos_iff.2 hw.1
    cases ws with
    | nil => rw [spaced, List.intercalate_singleton]; exact hpos
    | cons w' ws =>
      have hrest : (w' :: ws).length ≤ (spaced (w' :: ws)).length := ih hws
      have hcons : (w' :: ws).length + 1 ≤ w.length + ((spaced (w' :: ws)).length + 1) := by omega
      rw [spaced_cons_cons, List.length_append]
      exact hcons

end JetEnergy.Text
