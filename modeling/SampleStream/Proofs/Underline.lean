import Mathlib.Data.List.TakeDrop
import SampleStream.Proofs.Front
import SampleStream.Proofs.Offence

/-!
# What a rendered error points at

An error is rendered with the line it is in, and carets below it. The place counts line feeds, whereas the line is
shown without its end, be that a line feed or a carriage return with it (`isLine_lineAt`). Whatever a span covers has no
blank in it, so that it is in that line as a whole (`Points.underlined`).
-/

namespace SampleStream

/-- So many lines, each with its line feed. -/
inductive WholeLines : Nat → List Char → Prop
  | nil : WholeLines 0 []
  | cons {n : Nat} {line front : List Char} (hline : '\n' ∉ line) (rest : WholeLines n front) :
      WholeLines (n + 1) (line ++ '\n' :: front)

/-- What may follow a line that is shown. -/
inductive EndsLine (shown : List Char) : List Char → Prop
  | last : EndsLine shown []
  | lineFeed (hlast : shown.getLast? ≠ some '\r') (rest : List Char) : EndsLine shown ('\n' :: rest)
  | carriageReturn (rest : List Char) : EndsLine shown ('\r' :: '\n' :: rest)

/-- The line with so many whole lines in front of it, without its end. -/
def IsLine (source : List Char) (n : Nat) (shown : List Char) : Prop :=
  ∃ front back, source = front ++ shown ++ back ∧ WholeLines n front ∧ '\n' ∉ shown ∧ EndsLine shown back

theorem exists_wholeLines (before : List Char) :
    ∃ n front line, before = front ++ line ∧ WholeLines n front ∧ '\n' ∉ line := by
  induction before with
  | nil => exact ⟨0, [], [], rfl, .nil, by simp⟩
  | cons c before ih =>
    obtain ⟨n, front, line, rfl, hfront, hline⟩ := ih
    by_cases hc : c = '\n'
    · subst hc
      exact ⟨n + 1, '\n' :: front, line, rfl, .cons List.not_mem_nil hfront, hline⟩
    · cases hfront with
      | nil => exact ⟨0, [], c :: line, rfl, .nil, by simp [Ne.symm hc, hline]⟩
      | @cons n first front hfirst rest =>
        exact ⟨n + 1, c :: first ++ '\n' :: front, line, by simp, .cons (by simp [Ne.symm hc, hfirst]) rest, hline⟩

theorem stops_line {cs : List Char} (h : ∀ c ∈ cs.head?, c = '\n') : Scan.Stops (· != '\n') cs := by
  intro c hc
  rw [h c hc]
  rfl

theorem bne_of_line {line : List Char} (h : '\n' ∉ line) : ∀ c ∈ line, (c != '\n') = true :=
  fun _ hc => bne_iff_ne.mpr fun heq => h (heq ▸ hc)

theorem takeWhile_line {line : List Char} (hline : '\n' ∉ line) {cs : List Char} (hcs : ∀ c ∈ cs.head?, c = '\n') :
    (line ++ cs).takeWhile (· != '\n') = line := by
  exact (stops_line hcs).takeWhile_append (bne_of_line hline)

theorem dropWhile_line {line : List Char} (hline : '\n' ∉ line) {cs : List Char} (hcs : ∀ c ∈ cs.head?, c = '\n') :
    (line ++ cs).dropWhile (· != '\n') = cs := by
  exact (stops_line hcs).dropWhile_append (bne_of_line hline)

namespace WholeLines

variable {n : Nat} {front : List Char}

theorem count_eq (h : WholeLines n front) : front.count '\n' = n := by
  induction h with
  | nil => rfl
  | cons hline rest ih =>
    rw [List.count_append, List.count_eq_zero_of_not_mem hline, List.count_cons_self, ih, Nat.zero_add]

theorem head?_reverse (h : WholeLines n front) : ∀ c ∈ front.reverse.head?, c = '\n' := by
  induction h with
  | nil => nofun
  | @cons n line front hline rest ih =>
    intro c hc
    rw [List.reverse_append, List.reverse_cons, List.append_assoc, List.head?_append] at hc
    cases hhead : front.reverse.head? with
    | none => simpa [hhead, eq_comm] using hc
    | some d => exact ih c (by simpa [hhead] using hc)

-- The lines in front are passed over.
theorem lineAt_append (h : WholeLines n front) (cs : List Char) : lineAt n (front ++ cs) = lineAt 0 cs := by
  induction h with
  | nil => rfl
  | @cons n line front hline rest ih =>
    change lineAt n (((line ++ '\n' :: front ++ cs).dropWhile (· != '\n')).drop 1) = lineAt 0 cs
    rw [List.append_assoc, dropWhile_line hline (by simp)]
    exact ih

theorem column_eq (h : WholeLines n front) {line : List Char} (hline : '\n' ∉ line) :
    (front ++ line).reverse.takeWhile (· != '\n') = line.reverse := by
  rw [List.reverse_append]
  exact takeWhile_line (by simpa using hline) h.head?_reverse

end WholeLines

theorem lineAt_zero (cs : List Char) : lineAt 0 cs =
    if cs.dropWhile (· != '\n') = [] then cs.takeWhile (· != '\n')
    else if (cs.takeWhile (· != '\n')).getLast? = some '\r' then (cs.takeWhile (· != '\n')).dropLast
    else cs.takeWhile (· != '\n') := by
  rw [lineAt]
  simp only [List.span_eq_takeWhile_dropWhile, List.isEmpty_iff]

-- What is shown is the line up to its end.
theorem isLine_lineAt {n : Nat} {front : List Char} (h : WholeLines n front) (cs : List Char) :
    IsLine (front ++ cs) n (lineAt n (front ++ cs)) := by
  have hcut := List.takeWhile_append_dropWhile (p := (· != '\n')) (l := cs)
  have hline : '\n' ∉ cs.takeWhile (· != '\n') := fun hmem => by simpa using List.mem_takeWhile_imp hmem
  rw [h.lineAt_append, lineAt_zero]
  cases hrest : cs.dropWhile (· != '\n') with
  | nil =>
    rw [hrest, List.append_nil] at hcut
    rw [if_pos rfl, hcut]
    exact ⟨front, [], (List.append_nil _).symm, h, hcut ▸ hline, .last⟩
  | cons c rest =>
    have hc : c = '\n' := by
      have hstops := Scan.stops_dropWhile (· != '\n') cs
      rw [hrest] at hstops
      simpa using hstops c rfl
    subst hc
    rw [hrest] at hcut
    rw [if_neg (List.cons_ne_nil _ _)]
    split
    · rename_i hreturn
      obtain ⟨shown, hshown⟩ := List.getLast?_eq_some_iff.mp hreturn
      rw [hshown] at hcut hline ⊢
      rw [List.dropLast_concat]
      refine ⟨front, '\r' :: '\n' :: rest, ?_, h, ?_, .carriageReturn rest⟩
      · rw [← hcut]
        simp
      · exact fun hmem => hline (List.mem_append_left _ hmem)
    · rename_i hreturn
      exact ⟨front, '\n' :: rest, by rw [List.append_assoc, hcut], h, hline, .lineFeed hreturn rest⟩

-- A carriage return is a blank, so that none is taken from a text without blanks.
theorem prefix_lineAt {line text after : List Char} (hline : '\n' ∉ line)
    (htext : ∀ c ∈ text, Scan.isBlank c = false) (hend : text = [] → after = []) :
    ∃ tail, lineAt 0 (line ++ text ++ after) = line ++ text ++ tail := by
  have hrun : ∀ c ∈ line ++ text, (c != '\n') = true := by
    refine bne_of_line fun hmem => ?_
    obtain hmem | hmem := List.mem_append.mp hmem
    · exact hline hmem
    · exact absurd (htext _ hmem) (by decide)
  rw [lineAt_zero, List.takeWhile_append_of_pos hrun, List.dropWhile_append_of_pos hrun]
  split
  · exact ⟨_, rfl⟩
  · rename_i hrest
    split
    · rename_i hreturn
      by_cases htail : after.takeWhile (· != '\n') = []
      · rw [htail, List.append_nil, List.getLast?_append] at hreturn
        cases hlast : text.getLast? with
        | none =>
          rw [hend (List.getLast?_eq_none_iff.mp hlast)] at hrest
          exact absurd rfl hrest
        | some c =>
          rw [hlast] at hreturn
          cases hreturn
          exact absurd (htext _ (List.mem_of_getLast? hlast)) (by decide)
      · exact ⟨_, List.dropLast_append_of_ne_nil htail⟩
    · exact ⟨_, rfl⟩

theorem utf8Length_reverse (cs : List Char) : utf8Length cs.reverse = utf8Length cs := by
  induction cs with
  | nil => rfl
  | cons c cs ih => rw [List.reverse_cons, utf8Length_append, ih, utf8Length, utf8Length, utf8Length, Nat.add_comm,
      Nat.add_zero]

/-- The span covers a text without blanks, or it is at the end of the source. -/
structure Points (source : List Char) (span : Span) (before text after : List Char) : Prop where
  cut : source = before ++ text ++ after
  span : span = ⟨utf8Length before, utf8Length before + utf8Length text⟩
  unbroken : ∀ c ∈ text, Scan.isBlank c = false
  atEnd : text = [] → after = []

/-- The picture of an error: its line is shown, and below it the text that the error is about is underlined. -/
structure Underlined (source : String) (e : SyntaxError) (before text after : List Char) (line column : Nat)
    (shown : List Char) : Prop where
  cut : source.toList = before ++ text ++ after
  span : e.span = ⟨utf8Length before, utf8Length before + utf8Length text⟩
  place : e.span.lineColumn? source.toList = some (line, column)
  lineFeeds : line = before.count '\n' + 1
  shows : IsLine source.toList (line - 1) shown
  column_pos : 0 < column
  /-- from the column on the line has the text that the span covers in the source -/
  covers : Span.slice? ⟨column - 1, column - 1 + utf8Length text⟩ shown = some text
  inside : column - 1 + utf8Length text ≤ utf8Length shown
  picture : e.render? source = some ("error: " ++ e.cause.message ++
    "\n --> " ++ toString line ++ ":" ++ toString column ++
    "\n  | " ++ String.ofList shown ++
    "\n  | " ++ String.ofList (List.replicate (column - 1) ' ' ++ List.replicate (max 1 (utf8Length text)) '^'))

theorem Points.underlined {source : String} {e : SyntaxError} {before text after : List Char}
    (h : Points source.toList e.span before text after) :
    ∃ line column shown, Underlined source e before text after line column shown := by
  obtain ⟨hcut, hspan, hunbroken, hend⟩ := h
  obtain ⟨n, front, start, rfl, hfront, hstart⟩ := exists_wholeLines before
  have hsource : source.toList = front ++ (start ++ text ++ after) := by rw [hcut]; simp
  have hcount : (front ++ start).count '\n' = n := by
    rw [List.count_append, hfront.count_eq, List.count_eq_zero_of_not_mem hstart, Nat.add_zero]
  have hplace : e.span.lineColumn? source.toList = some (n + 1, utf8Length start + 1) := by
    have htake : takeBytes? (utf8Length (front ++ start)) source.toList = some (front ++ start) := by
      rw [hcut, List.append_assoc]
      exact takeBytes?_append (front ++ start) (text ++ after)
    rw [Span.lineColumn?, hspan, htake]
    simp only [Option.bind_eq_bind, Option.bind_some, hcount, hfront.column_eq hstart, utf8Length_reverse]
  obtain ⟨tail, htail⟩ := prefix_lineAt hstart hunbroken hend
  have hshown : lineAt n source.toList = start ++ text ++ tail := by
    rw [hsource, hfront.lineAt_append, htail]
  have hline := isLine_lineAt hfront (start ++ text ++ after)
  rw [← hsource, hshown] at hline
  have hlength : e.span.length? = some (utf8Length text) := by
    rw [Span.length?, hspan]
    simp
  refine ⟨n + 1, utf8Length start + 1, start ++ text ++ tail, hcut, hspan, hplace, by rw [hcount], hline,
    Nat.le_add_left 1 _, Span.slice?_append start text tail, ?_, ?_⟩
  · rw [utf8Length_append, utf8Length_append]
    exact Nat.le_add_right _ _
  · rw [SyntaxError.render?, hplace, hlength]
    simp only [Option.bind_eq_bind, Option.bind_some, Nat.add_sub_cancel, hshown]

-- What a token covers is a lexeme, or nothing at the end.
theorem Placed.points {source : List Char} {ts : List Token} (h : Placed 0 source ts) {t : Token} (ht : t ∈ ts) :
    ∃ before text after, Points source t.span before text after ∧ (t.lexeme = .done → text = []) := by
  by_cases hdone : t.lexeme = .done
  · obtain ⟨before, hts, hbefore⟩ := h.last
    have hend : t = ⟨.done, .point (0 + utf8Length source)⟩ := by
      rw [hts, List.mem_append, List.mem_singleton] at ht
      exact ht.resolve_left fun ht => hbefore t ht hdone
    refine ⟨source, [], [], ⟨by simp, ?_, nofun, fun _ => rfl⟩, fun _ => rfl⟩
    rw [hend, Nat.zero_add]
    rfl
  · obtain ⟨before, text, after, rfl, hspelling, hspan⟩ := h.spelled t ht hdone
    rw [Nat.zero_add] at hspan
    exact ⟨before, text, after, ⟨rfl, hspan, hspelling.isBlank_of_mem, fun hnil => absurd hnil hspelling.ne_nil⟩,
      fun hdone' => absurd hdone' hdone⟩

theorem Scan.Refuses.points {front rest : List Char} {c : Char} {e : SyntaxError}
    (h : Refuses (utf8Length front) c rest e) :
    Points (front ++ c :: rest) e.span front (cut c rest).text (cut c rest).rest := by
  obtain ⟨hblank, flaw, -, rfl⟩ := h
  refine ⟨?_, rfl, isBlank_of_mem_cut hblank rest, fun hnil => absurd hnil (cut_text_ne_nil c rest)⟩
  rw [List.append_assoc, cut_text_append_rest]

theorem Cursor.last_skip {c : Cursor} {t : Token} {ts : List Token} (h : c.rest = t :: ts) :
    c.skip.last = some t.span := by
  unfold Cursor.skip
  split
  · rename_i hnil
    rw [h] at hnil
    cases hnil
  · rename_i hcons
    rw [h] at hcons
    cases hcons
    rfl

namespace Progress

variable {limit : Nat} {k : Category} {ts : List Token} {p : Progress} {e : SyntaxError}

theorem turn_error (h : p.turn limit = .error e) :
    (∃ wanted, e = p.cursor.expected wanted) ∨ e = p.cursor.tooDeep := by
  unfold turn at h
  split at h
  · split at h
    · cases h
    · cases h
      exact .inl ⟨_, rfl⟩
  · split at h
    · split at h
      · cases h
      · cases h
      · cases h
        exact .inl ⟨_, rfl⟩
    · cases h
      exact .inr rfl

-- Wherever a reader is, what comes next is one of the tokens.
theorem Reaches.exists_next (h : (start k ts).Reaches limit p) {offset : Nat} {cs : List Char}
    (hplaced : Placed offset cs ts) : ∃ t ∈ ts, ∃ behind, p.cursor.rest = t :: behind := by
  obtain ⟨before, waiting, harrives⟩ := h.arrives
  have hsplit : ts = before ++ p.cursor.rest := harrives.split
  obtain ⟨t, behind, hrest⟩ := harrives.exists_next hplaced
  rw [hrest] at hsplit
  exact ⟨t, by simp [hsplit], behind, hrest⟩

-- The token just read is one of the text.
theorem Reaches.exists_last (h : (start k ts).Reaches limit p) {offset : Nat} {cs : List Char}
    (hplaced : Placed offset cs ts) : ∀ s ∈ p.cursor.last, ∃ t ∈ ts, t.span = s := by
  induction h with
  | refl => nofun
  | @tail q q' hq hturn ih =>
    obtain ⟨i, rest, items, -, -, -, ⟨-, hcursor⟩ | ⟨-, hcursor⟩⟩ := turn_cases hturn
    · rwa [hcursor]
    · obtain ⟨t, ht, behind, hrest⟩ := Reaches.exists_next hq hplaced
      intro s hs
      rw [hcursor, Cursor.last_skip hrest] at hs
      cases hs
      exact ⟨t, ht, rfl⟩

end Progress

section Parser

variable {α : Type} {parse : String → Except SyntaxError α} {k : Category}
  (hscan : ∀ {source e}, tokenize source = .error e → parse source = .error e)
  (hparse : ∀ {source ts}, tokenize source = .ok ts → ∃ q, (Progress.start k ts).Reaches maxNesting q ∧
    q.turn maxNesting = (parse source).map fun _ => none)

include hscan hparse

theorem exists_points {source : String} {e : SyntaxError} (h : parse source = .error e) :
    ∃ before text after, Points source.toList e.span before text after ∧
      ∀ wanted, e.cause = .unexpectedEnd wanted → text = [] := by
  cases hts : tokenize source with
  | error e' =>
    rw [hscan hts] at h
    cases h
    obtain ⟨front, c, rest, ts, hsource, -, hrefuses⟩ := Scan.front_of_error hts
    rw [Nat.zero_add] at hrefuses
    refine ⟨_, _, _, hsource ▸ hrefuses.points, fun wanted hend => ?_⟩
    obtain ⟨-, flaw, -, rfl⟩ := hrefuses
    cases flaw <;> cases hend
  | ok ts =>
    obtain ⟨p, hp, hturn⟩ := hparse hts
    rw [h] at hturn
    have hplaced : Placed 0 source.toList ts := Scan.placed_of_tokens 0 source.toList hts
    obtain ⟨t, ht, behind, hrest⟩ := hp.exists_next hplaced
    obtain ⟨wanted, rfl⟩ | rfl := Progress.turn_error hturn
    · obtain ⟨front, text, after, hpoints, hdone⟩ := hplaced.points ht
      rw [Progress.expected_eq hrest]
      refine ⟨front, text, after, hpoints, fun wanted' hend => hdone ?_⟩
      by_contra hne
      rw [if_neg hne] at hend
      cases hend
    · obtain ⟨u, hu, hspan⟩ : ∃ u ∈ ts, u.span = p.cursor.tooDeep.span := by
        cases hlast : p.cursor.last with
        | none => exact ⟨t, ht, by rw [Cursor.tooDeep, hlast, Cursor.peek, hrest]; rfl⟩
        | some s =>
          obtain ⟨u, hu, hspan⟩ := hp.exists_last hplaced s hlast
          exact ⟨u, hu, by rw [Cursor.tooDeep, hlast]; exact hspan⟩
      obtain ⟨front, text, after, hpoints, -⟩ := hplaced.points hu
      exact ⟨front, text, after, hspan ▸ hpoints, fun wanted hend => by cases hend⟩

end Parser

/-- Whatever a text is refused for, the error can be rendered, and the carets are below the text that it is about,
all of which is in the line that is shown. Where the end of the text is refused, that is an empty text at the end of
the last line. -/
theorem render_underlines (source : String) (e : SyntaxError)
    (h : Expr.parse source = .error e ∨ Ty.parse source = .error e) :
    ∃ before text after line column shown, Underlined source e before text after line column shown ∧
      ∀ wanted, e.cause = .unexpectedEnd wanted → text = [] ∧ after = [] := by
  obtain ⟨before, text, after, hpoints, hend⟩ : ∃ before text after, Points source.toList e.span before text after ∧
      ∀ wanted, e.cause = .unexpectedEnd wanted → text = [] := by
    obtain h | h := h
    · refine exists_points (k := .expr) (fun hts => ?_) (fun {source ts} hts => ?_) h
      · rw [Expr.parse, hts]
        rfl
      · rw [Expr.parse, hts]
        exact Expr.exists_turn_ofTokens maxNesting ts
    · refine exists_points (k := .ty) (fun hts => ?_) (fun {source ts} hts => ?_) h
      · rw [Ty.parse, hts]
        rfl
      · rw [Ty.parse, hts]
        exact Ty.exists_turn_ofTokens maxNesting ts
  obtain ⟨line, column, shown, hunderlined⟩ := hpoints.underlined
  exact ⟨before, text, after, line, column, shown, hunderlined,
    fun wanted hcause => ⟨hend wanted hcause, hpoints.atEnd (hend wanted hcause)⟩⟩

/-- The end of a text behind a carriage return and a line feed. -/
theorem render_underlines_return :
    Expr.parse "(\r\n" = .error ⟨⟨3, 3⟩, .unexpectedEnd ["an expression"]⟩ ∧
      ∃ before text after line column shown,
        Underlined "(\r\n" ⟨⟨3, 3⟩, .unexpectedEnd ["an expression"]⟩ before text after line column shown ∧
          ∀ wanted, SyntaxError.Cause.unexpectedEnd ["an expression"] = .unexpectedEnd wanted →
            text = [] ∧ after = [] := by
  have h : Expr.parse "(\r\n" = .error ⟨⟨3, 3⟩, .unexpectedEnd ["an expression"]⟩ := by decide +kernel
  exact ⟨h, render_underlines _ _ (.inl h)⟩

end SampleStream
