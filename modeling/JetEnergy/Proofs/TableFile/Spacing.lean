import Mathlib.Logic.Relation
import JetEnergy.Correction.Table
import JetEnergy.Uncertainty.Table
import JetEnergy.Proofs.TableFile.Appending

/-!
  Texts that are set differently.

  * `Respaced` relates a text to one with other line ends, more blank characters
    after its lines, other gaps between its fields, or more or fewer braces inside
    its lines.
  * `read_append_blanks`, `read_gap` and `read_insert_brace`: a line stays what it
    is.  `linesOf_respaced`: so do all lines of a text.
  * `spacing_is_unobservable`: correction and uncertainty files give the same however
    they are set.
-/
namespace JetEnergy.TableFile

open Text

/-! ## Lines in a text -/

/-- A text is cut around one of its lines; what follows starts with the end of the
    line, if there is one. -/
structure LineAt (above line below : List Char) : Prop where
  starts : Terminated above
  whole : '\n' ∉ line
  ends : below = [] ∨ (∃ rest, below = '\n' :: rest) ∨ ∃ rest, below = '\r' :: '\n' :: rest

/-- A text in which every line feed has a carriage return before it. -/
def withReturns (text : List Char) : List Char :=
  text.flatMap fun c => if c = '\n' then ['\r', '\n'] else [c]

/-- One change to how a text is set. -/
inductive Respaced : List Char → List Char → Prop
  /-- every line feed becomes a carriage return and a line feed -/
  | returns (text) : Respaced text (withReturns text)
  /-- blank characters after a line; after its last line feed a text has none -/
  | pad {above line below blanks} : LineAt above line below → line ≠ [] ∨ below ≠ [] →
      AllBlank blanks → '\n' ∉ blanks →
      Respaced (above ++ line ++ below) (above ++ (line ++ blanks) ++ below)
  /-- another gap between two fields of a line -/
  | gap {above left right below old new} : LineAt above (left ++ old ++ right) below →
      fieldsOf left ≠ [] → fieldsOf right ≠ [] → old ≠ [] → AllBlank old →
      new ≠ [] → AllBlank new → '\n' ∉ new →
      Respaced (above ++ (left ++ old ++ right) ++ below) (above ++ (left ++ new ++ right) ++ below)
  /-- a brace in a line with fields, after its first character that is not blank -/
  | insertBrace {above left right below brace} : LineAt above (left ++ right) below →
      (∃ c ∈ left, isBlank c = false) → fieldsOf (left ++ right) ≠ [] →
      brace = '{' ∨ brace = '}' →
      Respaced (above ++ (left ++ right) ++ below) (above ++ (left ++ brace :: right) ++ below)
  | dropBrace {above left right below brace} : LineAt above (left ++ brace :: right) below →
      (∃ c ∈ left, isBlank c = false) → fieldsOf (left ++ right) ≠ [] →
      brace = '{' ∨ brace = '}' →
      Respaced (above ++ (left ++ brace :: right) ++ below) (above ++ (left ++ right) ++ below)

/-! ## One line -/

theorem dropBraces_append (a b : List Char) : dropBraces (a ++ b) = dropBraces a ++ dropBraces b :=
  List.filter_append ..

theorem dropBraces_blanks {blanks : List Char} (h : AllBlank blanks) :
    dropBraces blanks = blanks := by
  refine List.filter_eq_self.2 fun c hc => ?_
  have hblank := h c hc
  simp only [decide_eq_true_eq]
  constructor
  · rintro rfl; cases hblank
  · rintro rfl; cases hblank

theorem fieldsOf_blanks {blanks : List Char} (h : AllBlank blanks) : fieldsOf blanks = [] := by
  rw [fieldsOf, dropBraces_blanks h, words_blanks h]

/-- A line with fields has a character that is not blank. -/
theorem exists_not_blank {line : List Char} (h : fieldsOf line ≠ []) :
    ∃ c ∈ line, isBlank c = false := by
  by_contra hnone
  refine h (fieldsOf_blanks fun c hc => ?_)
  cases hblank : isBlank c with
  | true => rfl
  | false => exact absurd ⟨c, hc, hblank⟩ hnone

/-- Whether a line opens a heading shows at its first character that is not
    blank. -/
theorem opensHeading_append {left : List Char} (h : ∃ c ∈ left, isBlank c = false)
    (right : List Char) : opensHeading (left ++ right) = opensHeading left := by
  induction left with
  | nil => obtain ⟨c, hc, -⟩ := h; cases hc
  | cons c left ih =>
    by_cases hspace : c = ' '
    · subst hspace
      obtain ⟨d, hd, hblank⟩ := h
      have hd' : d ∈ left := by
        rcases List.mem_cons.1 hd with rfl | hd
        · cases hblank
        · exact hd
      exact ih ⟨d, hd', hblank⟩
    · by_cases hbrace : c = '{'
      · subst hbrace; rfl
      · rw [List.cons_append, opensHeading, opensHeading]
        · exact fun rest heq => hbrace (List.cons.inj heq).1
        · exact fun rest heq => hspace (List.cons.inj heq).1
        · exact fun rest heq => hbrace (List.cons.inj heq).1
        · exact fun rest heq => hspace (List.cons.inj heq).1

/-- What a line is depends on its fields and, if it has any, on whether it opens a
    heading. -/
theorem read_congr {line line' : List Char} (hfields : fieldsOf line' = fieldsOf line)
    (hopens : fieldsOf line ≠ [] → opensHeading line' = opensHeading line) :
    Line.read line' = Line.read line := by
  unfold Line.read
  rw [hfields]
  split
  · rfl
  · next hne => rw [hopens hne]

theorem read_append_blanks (line : List Char) {blanks : List Char} (h : AllBlank blanks) :
    Line.read (line ++ blanks) = Line.read line := by
  refine read_congr ?_ fun hne => opensHeading_append (exists_not_blank hne) _
  rw [fieldsOf, dropBraces_append, dropBraces_blanks h, words_append_blanks _ h, fieldsOf]

theorem fieldsOf_gap (left right : List Char) {gap : List Char} (hne : gap ≠ [])
    (h : AllBlank gap) : fieldsOf (left ++ gap ++ right) = fieldsOf left ++ fieldsOf right := by
  rw [fieldsOf, dropBraces_append, dropBraces_append, dropBraces_blanks h,
    words_append_gap _ hne h]
  rfl

theorem read_gap {left old new right : List Char} (hleft : fieldsOf left ≠ []) (hold : old ≠ [])
    (hblank : AllBlank old) (hnew : new ≠ []) (hblank' : AllBlank new) :
    Line.read (left ++ new ++ right) = Line.read (left ++ old ++ right) := by
  have hchar := exists_not_blank hleft
  refine read_congr ?_ fun _ => ?_
  · rw [fieldsOf_gap _ _ hnew hblank', fieldsOf_gap _ _ hold hblank]
  · rw [List.append_assoc, List.append_assoc, opensHeading_append hchar, opensHeading_append hchar]

theorem read_insert_brace {left right : List Char} {brace : Char}
    (hchar : ∃ c ∈ left, isBlank c = false) (hbrace : brace = '{' ∨ brace = '}') :
    Line.read (left ++ brace :: right) = Line.read (left ++ right) := by
  refine read_congr ?_ fun _ => ?_
  · have hdropped : dropBraces (brace :: right) = dropBraces right := by
      rcases hbrace with rfl | rfl <;> rfl
    rw [fieldsOf, dropBraces_append, hdropped, ← dropBraces_append, fieldsOf]
  · rw [opensHeading_append hchar, opensHeading_append hchar]

/-! ## The lines of a text -/

theorem read_dropReturn (line : List Char) :
    Line.read (LinesSoFar.dropReturn line.reverse).reverse = Line.read line := by
  unfold LinesSoFar.dropReturn
  split
  · next body heq =>
    have hline : line = body.reverse ++ ['\r'] := by
      rw [← List.reverse_reverse line, heq, List.reverse_cons]
    rw [hline, read_append_blanks _ (by decide)]
  · rw [List.reverse_reverse]

theorem linesOf_ended {line : List Char} (h : '\n' ∉ line) (rest : List Char) :
    linesOf (line ++ '\n' :: rest) = Line.read line :: linesOf rest := by
  have hlast : Terminated (line ++ ['\n']) := Or.inr (List.getLast?_eq_some_iff.2 ⟨line, rfl⟩)
  have happend := linesOf_append hlast rest
  rw [List.append_assoc] at happend
  rw [show line ++ '\n' :: rest = line ++ (['\n'] ++ rest) from rfl, happend, linesOf,
    lines_ended_line h, List.map_singleton, read_dropReturn]
  rfl

/-- What stands below a line, its end apart. -/
def afterEnd : List Char → List Char
  | '\n' :: rest | '\r' :: '\n' :: rest => rest
  | rest => rest

theorem linesOf_lineAt {above line below : List Char} (h : LineAt above line below)
    (hne : line ≠ [] ∨ below ≠ []) :
    linesOf (above ++ line ++ below) =
      linesOf above ++ Line.read line :: linesOf (afterEnd below) := by
  rw [List.append_assoc, linesOf_append h.starts]
  rcases h.ends with rfl | ⟨rest, rfl⟩ | ⟨rest, rfl⟩
  · have hline : linesOf line = [Line.read line] := by
      rw [linesOf, lines_last h.whole (hne.resolve_right fun hnot => hnot rfl), List.map_singleton]
    rw [List.append_nil, hline]
    rfl
  · rw [linesOf_ended h.whole]
    rfl
  · have hreturn : '\n' ∉ line ++ ['\r'] := by simp [h.whole]
    rw [show line ++ '\r' :: '\n' :: rest = line ++ ['\r'] ++ '\n' :: rest by simp,
      linesOf_ended hreturn, read_append_blanks _ (by decide)]
    rfl

/-- A line that stays what it is may be exchanged. -/
theorem linesOf_exchange {above line line' below : List Char} (h : LineAt above line below)
    (hfeed : '\n' ∉ line') (hne : line ≠ [] ∨ below ≠ []) (hne' : line' ≠ [] ∨ below ≠ [])
    (hread : Line.read line' = Line.read line) :
    linesOf (above ++ line' ++ below) = linesOf (above ++ line ++ below) := by
  have h' : LineAt above line' below := ⟨h.starts, hfeed, h.ends⟩
  rw [linesOf_lineAt h hne, linesOf_lineAt h' hne', hread]

theorem withReturns_of_line {line : List Char} (h : '\n' ∉ line) : withReturns line = line := by
  induction line with
  | nil => rfl
  | cons c line ih =>
    obtain ⟨hc, hline⟩ := not_or.1 (mt List.mem_cons.2 h)
    rw [withReturns, List.flatMap_cons, if_neg (Ne.symm hc)]
    exact congrArg (c :: ·) (ih hline)

theorem linesOf_withReturns (text : List Char) : linesOf (withReturns text) = linesOf text := by
  -- the text is taken apart at its line feeds
  induction hn : text.length using Nat.strongRecOn generalizing text with
  | _ n ih =>
    by_cases hfeed : '\n' ∈ text
    · obtain ⟨line, rest, htext, hline⟩ := List.eq_append_cons_of_mem hfeed
      have hshort : rest.length < n := by
        rw [← hn, htext, List.length_append, List.length_cons]
        omega
      have hreturns : withReturns text = line ++ ['\r'] ++ '\n' :: withReturns rest := by
        rw [htext, withReturns, List.flatMap_append, ← withReturns, withReturns_of_line hline]
        simp [withReturns]
      rw [hreturns, linesOf_ended (by simp [hline]), ih _ hshort rest rfl,
        read_append_blanks _ (by decide), htext, linesOf_ended hline]
    · rw [withReturns_of_line hfeed]

/-- A text that is set differently has the same lines. -/
theorem linesOf_respaced {text text' : List Char} (h : Respaced text text') :
    linesOf text' = linesOf text := by
  cases h with
  | returns => exact linesOf_withReturns text
  | @pad above line below blanks h hne hblank hfeed =>
    refine linesOf_exchange h ?_ hne ?_ (read_append_blanks line hblank)
    · simp [h.whole, hfeed]
    · exact hne.imp_left fun hline => by simp [hline]
  | @gap above left right below old new h hleft hright hold hblank hnew hblank' hfeed =>
    refine linesOf_exchange h ?_ (Or.inl (by simp [hold])) (Or.inl (by simp [hnew]))
      (read_gap hleft hold hblank hnew hblank')
    have hwhole := h.whole
    simp only [List.mem_append, not_or] at hwhole ⊢
    exact ⟨⟨hwhole.1.1, hfeed⟩, hwhole.2⟩
  | @insertBrace above left right below brace h hchar hfields hbrace =>
    refine linesOf_exchange h ?_ (Or.inl ?_) (Or.inl (by simp)) (read_insert_brace hchar hbrace)
    · have hwhole := h.whole
      rw [List.mem_append, not_or] at hwhole
      rcases hbrace with rfl | rfl <;> simp [hwhole]
    · rintro hnil
      rw [hnil] at hfields
      exact hfields rfl
  | @dropBrace above left right below brace h hchar hfields hbrace =>
    refine linesOf_exchange h ?_ (Or.inl (by simp)) (Or.inl ?_)
      (read_insert_brace hchar hbrace).symm
    · have hwhole := h.whole
      simp only [List.mem_append, List.mem_cons, not_or] at hwhole ⊢
      exact ⟨hwhole.1, hwhole.2.2⟩
    · rintro hnil
      rw [hnil] at hfields
      exact hfields rfl

theorem events_respaced {text text' : List Char} (h : Relation.ReflTransGen Respaced text text') :
    events text' = events text := by
  have hlines : linesOf text' = linesOf text := by
    induction h with
    | refl => rfl
    | tail _ hstep ih => exact (linesOf_respaced hstep).trans ih
  rw [events, hlines, events]

/-- **How a text is set does not matter.**  Give its lines other ends, put blank
    characters after them, change the gaps between fields, insert or drop braces
    inside lines with fields, as often as you like: it has the same events, line by
    line, and as a correction file it gives the same table, with the same tally, or
    the same failure.  As an uncertainty file it gives the same table, and it halts
    at the same row if it does. -/
theorem spacing_is_unobservable {text text' : List Char}
    (h : Relation.ReflTransGen Respaced text text') (source : String) :
    events text' = events text ∧
    Correction.Table.parse source text' = Correction.Table.parse source text ∧
    Uncertainty.Table.parse source text' = Uncertainty.Table.parse source text := by
  have hevents := events_respaced h
  refine ⟨hevents, ?_, ?_⟩
  · rw [Correction.Table.parse, Correction.Table.parse, scan, scan, hevents]
  · rw [Uncertainty.Table.parse, Uncertainty.Table.parse, scan, scan, hevents]

/-- A heading and a row, changed in all five ways. -/
theorem spacing_is_unobservable_two_lines :
    Relation.ReflTransGen Respaced "\x7b1 JetEta 1 JetPt x\x7d\n-5 5 3 0 9 1\n".toList
      "\x7b1\t  JetEta 1 JetPt x\r\n-5 5 3\x7d 0 9 1 \t\r\n".toList ∧
    Correction.Table.parse "table" "\x7b1\t  JetEta 1 JetPt x\r\n-5 5 3\x7d 0 9 1 \t\r\n".toList =
      Correction.Table.parse "table" "\x7b1 JetEta 1 JetPt x\x7d\n-5 5 3 0 9 1\n".toList := by
  have hpad : Respaced "\x7b1 JetEta 1 JetPt x\x7d\n-5 5 3 0 9 1\n".toList
      "\x7b1 JetEta 1 JetPt x\x7d\n-5 5 3 0 9 1 \t\n".toList :=
    @Respaced.pad "\x7b1 JetEta 1 JetPt x\x7d\n".toList "-5 5 3 0 9 1".toList ['\n'] [' ', '\t']
      ⟨Or.inr (by decide), by decide, Or.inr (Or.inl ⟨[], rfl⟩)⟩ (Or.inr (by decide)) (by decide)
      (by decide)
  have hgap : Respaced "\x7b1 JetEta 1 JetPt x\x7d\n-5 5 3 0 9 1 \t\n".toList
      "\x7b1\t  JetEta 1 JetPt x\x7d\n-5 5 3 0 9 1 \t\n".toList :=
    @Respaced.gap [] "\x7b1".toList "JetEta 1 JetPt x\x7d".toList "\n-5 5 3 0 9 1 \t\n".toList
      [' '] ['\t', ' ', ' '] ⟨Or.inl rfl, by decide, Or.inr (Or.inl ⟨_, rfl⟩)⟩
      (by decide) (by decide) (by decide) (by decide) (by decide) (by decide) (by decide)
  have hinsert : Respaced "\x7b1\t  JetEta 1 JetPt x\x7d\n-5 5 3 0 9 1 \t\n".toList
      "\x7b1\t  JetEta 1 JetPt x\x7d\n-5 5 3\x7d 0 9 1 \t\n".toList :=
    @Respaced.insertBrace "\x7b1\t  JetEta 1 JetPt x\x7d\n".toList "-5 5 3".toList
      " 0 9 1 \t".toList ['\n'] '}' ⟨Or.inr (by decide), by decide, Or.inr (Or.inl ⟨[], rfl⟩)⟩
      ⟨'5', by decide, rfl⟩ (by decide) (Or.inr rfl)
  have hdrop : Respaced "\x7b1\t  JetEta 1 JetPt x\x7d\n-5 5 3\x7d 0 9 1 \t\n".toList
      "\x7b1\t  JetEta 1 JetPt x\n-5 5 3\x7d 0 9 1 \t\n".toList :=
    @Respaced.dropBrace [] "\x7b1\t  JetEta 1 JetPt x".toList []
      "\n-5 5 3\x7d 0 9 1 \t\n".toList '}' ⟨Or.inl rfl, by decide, Or.inr (Or.inl ⟨_, rfl⟩)⟩
      ⟨'x', by decide, rfl⟩ (by decide) (Or.inr rfl)
  have hreturns : Respaced "\x7b1\t  JetEta 1 JetPt x\n-5 5 3\x7d 0 9 1 \t\n".toList
      "\x7b1\t  JetEta 1 JetPt x\r\n-5 5 3\x7d 0 9 1 \t\r\n".toList :=
    .returns "\x7b1\t  JetEta 1 JetPt x\n-5 5 3\x7d 0 9 1 \t\n".toList
  have hall := ((((Relation.ReflTransGen.single hpad).tail hgap).tail hinsert).tail hdrop).tail
    hreturns
  exact ⟨hall, (spacing_is_unobservable hall "table").2.1⟩

end JetEnergy.TableFile
