import SampleStream.Proofs.Agenda
import SampleStream.Proofs.Writing

/-!
# What can still be read

What a reader does depends on the lexemes up to the one that comes next and on nothing behind it: each place
that it reaches is reached again on every text that begins alike (`Progress.Reaches.arrives`). And wherever it
is, as long as the nesting leaves room, what has still to be read can be read: any agenda has lexemes that
finish it (`concludes_finish`).
-/

namespace SampleStream

theorem Cursor.next_of_rest {c : Cursor} {t : Token} {ts : List Token} (h : c.rest = t :: ts) :
    c.next = t.lexeme := by
  rw [Cursor.next, Cursor.peek, h, List.headD_cons]

theorem Cursor.rest_skip {c : Cursor} {t : Token} {ts : List Token} (h : c.rest = t :: ts) :
    c.skip.rest = ts := by
  rw [Cursor.skip]
  split
  · rename_i hnil
    rw [h] at hnil
    cases hnil
  · rename_i hcons
    rw [h] at hcons
    cases hcons
    rfl

theorem Cursor.exists_rest_of_next {c : Cursor} (h : c.next ≠ .done) : ∃ t ts, c.rest = t :: ts := by
  cases hrest : c.rest with
  | nil => exact absurd (by rw [Cursor.next, Cursor.peek, hrest]; rfl) h
  | cons t ts => exact ⟨t, ts, rfl⟩

namespace Item

-- No item takes the end of the text.
theorem response_done (i : Item) (items : List Item) : i.response .done ≠ .take items := by
  cases i with
  | head k min => cases k <;> nofun
  | climb k min level => cases k <;> nofun
  | _ => nofun

end Item

namespace Progress

variable {limit : Nat} {p q : Progress}

/-- What a turn does: it looks at the first item and at the next lexeme, which it leaves or takes. -/
theorem turn_cases (h : p.turn limit = .ok (some q)) : ∃ i rest items, p.agenda = i :: rest ∧
    i.fits limit (openPhrases rest) = true ∧ q.agenda = items ++ rest ∧
    (i.response p.cursor.next = .stay items ∧ q.cursor = p.cursor ∨
      i.response p.cursor.next = .take items ∧ q.cursor = p.cursor.skip) := by
  unfold turn at h
  split at h
  · split at h <;> cases h
  · rename_i i rest hagenda
    split at h
    · rename_i hfits
      split at h
      · rename_i items hresponse
        cases h
        exact ⟨i, rest, items, hagenda, hfits, rfl, .inl ⟨hresponse, rfl⟩⟩
      · rename_i items hresponse
        cases h
        exact ⟨i, rest, items, hagenda, hfits, rfl, .inr ⟨hresponse, rfl⟩⟩
      · cases h
    · cases h

/-- With the lexeme next, one agenda becomes the other before it is taken. -/
def Waits (limit : Nat) (l : Lexeme) : List Item → List Item → Prop :=
  Relation.ReflTransGen fun K K' => ∃ i rest items, K = i :: rest ∧
    i.fits limit (openPhrases rest) = true ∧ i.response l = .stay items ∧ K' = items ++ rest

theorem Waits.reaches {c : Cursor} {l : Lexeme} (hc : c.next = l) {K K' : List Item}
    (h : Waits limit l K K') : Reaches limit ⟨K, c⟩ ⟨K', c⟩ := by
  refine Relation.ReflTransGen.lift (fun K => (⟨K, c⟩ : Progress)) ?_ K K' h
  rintro K K' ⟨i, rest, items, rfl, hfits, hresponse, rfl⟩
  exact turn_of_stay hfits (hc ▸ hresponse)

/-- The place `q`, reached with `before` read: whatever text begins with these lexemes is read up to the
agenda `waiting`, and at the lexeme that came next that becomes the agenda of `q`. -/
structure Arrives (limit : Nat) (agenda : List Item) (c : Cursor) (q : Progress) (before : List Token)
    (waiting : List Item) : Prop where
  split : c.rest = before ++ q.cursor.rest
  inside : ∀ t ∈ before, t.lexeme ≠ .done
  again : ∀ (d : Cursor) (us vs : List Token), d.rest = us ++ vs →
    us.map Token.lexeme = before.map Token.lexeme →
    ∃ d' : Cursor, d'.rest = vs ∧ Reaches limit ⟨agenda, d⟩ ⟨waiting, d'⟩
  waits : Waits limit q.cursor.next waiting q.agenda

theorem Reaches.arrives {agenda : List Item} {c : Cursor} (h : Reaches limit ⟨agenda, c⟩ q) :
    ∃ before waiting, Arrives limit agenda c q before waiting := by
  induction h with
  | refl =>
    refine ⟨[], agenda, rfl, nofun, fun d us vs hd hus => ?_, .refl⟩
    obtain rfl : us = [] := by simpa using hus
    exact ⟨d, hd, .refl⟩
  | @tail q q' hq hturn ih =>
    obtain ⟨before, waiting, hsplit, hinside, hagain, hwaits⟩ := ih
    obtain ⟨i, rest, items, hagenda, hfits, hagenda', ⟨hresponse, hcursor⟩ | ⟨hresponse, hcursor⟩⟩ :=
      turn_cases hturn
    · -- the lexeme is left where it is
      refine ⟨before, waiting, hcursor ▸ hsplit, hinside, hagain, ?_⟩
      rw [hcursor]
      exact hwaits.tail ⟨i, rest, items, hagenda, hfits, hresponse, hagenda'⟩
    · -- the lexeme is taken, and is one of those that texts must begin with
      have hnext : q.cursor.next ≠ .done := by
        intro hdone
        rw [hdone] at hresponse
        exact i.response_done items hresponse
      obtain ⟨t, ts, hts⟩ := Cursor.exists_rest_of_next hnext
      have hlexeme := Cursor.next_of_rest hts
      refine ⟨before ++ [t], q'.agenda, ?_, ?_, fun d us vs hd hus => ?_, .refl⟩
      · rw [hsplit, hcursor, Cursor.rest_skip hts, hts, List.append_assoc, List.singleton_append]
      · simpa [or_imp, forall_and, hlexeme ▸ hnext] using hinside
      · rw [List.map_append, List.map_singleton] at hus
        obtain ⟨us, last, rfl, hbefore, hlast⟩ := List.map_eq_append_iff.mp hus
        obtain ⟨u, rfl, hu⟩ := List.map_eq_singleton_iff.mp hlast
        obtain ⟨d', hd', hreaches⟩ := hagain d us (u :: vs) (by simpa using hd) hbefore
        have hsame : d'.next = q.cursor.next := by
          rw [Cursor.next_of_rest hd', hu, hlexeme]
        refine ⟨d'.skip, Cursor.rest_skip hd', (hreaches.trans (hwaits.reaches hsame)).tail ?_⟩
        rw [hagenda, hagenda']
        exact turn_of_take hfits (hsame ▸ hresponse)

end Progress

/-- Whether no operator is here that a phrase could take. -/
def Lexeme.endsPhrase (l : Lexeme) : Bool :=
  (Ty.Operator.ofLexeme? l).isNone && (Expr.Operator.ofLexeme? l).isNone

namespace Item

/-- The shortest that can be read for the item, where nothing is nested; `unit` is a name for any use. -/
def finish : Item → List Lexeme
  | .symbol s => [.symbol s]
  | .keyword k => [.keyword k]
  | .name | .phrase .. | .head .. | .binding => [.name "unit"]
  | .climb .. => []
  | .close => [.symbol .rightParen]

/-- Whether the item is a phrase or the rest of one. -/
def isPhrase : Item → Bool
  | .phrase .. | .head .. | .climb .. => true
  | _ => false

end Item

/-- The lexemes that finish the agenda. -/
def finish (agenda : List Item) : List Lexeme :=
  agenda.flatMap Item.finish

/-- Every phrase is followed by what ends it. -/
def Delimited : List Item → Prop
  | [] => True
  | i :: rest => (i.isPhrase = true → ((finish rest).headD .done).endsPhrase = true) ∧ Delimited rest

/-- Each phrase may begin as far as the nesting goes. -/
def AllFit (limit : Nat) : List Item → Prop
  | [] => True
  | i :: rest => i.fits limit (openPhrases rest) = true ∧ AllFit limit rest

theorem allFit_of_openPhrases_lt {limit : Nat} {K : List Item} (h : openPhrases K < limit) : AllFit limit K := by
  induction K with
  | nil => trivial
  | cons i rest ih =>
    have hle : openPhrases rest ≤ openPhrases (i :: rest) := Nat.le_add_right _ _
    refine ⟨?_, ih (Nat.lt_of_le_of_lt hle h)⟩
    cases i with
    | phrase k min => exact decide_eq_true h
    | _ => rfl

theorem AllFit.of_append {limit : Nat} {K K' : List Item} (h : AllFit limit (K ++ K')) : AllFit limit K' := by
  induction K with
  | nil => exact h
  | cons i rest ih => exact ih h.2

-- What a wait leads to has to be read in the end anyway.
theorem Progress.Waits.fits {limit : Nat} {l : Lexeme} {K K' : List Item} (h : Waits limit l K K')
    (hfits : AllFit limit K') : AllFit limit K := by
  induction h using Relation.ReflTransGen.head_induction_on with
  | refl => exact hfits
  | head hstep _ ih =>
    obtain ⟨i, rest, items, rfl, hi, -, rfl⟩ := hstep
    exact ⟨hi, ih.of_append⟩

/-- What stands in place of the item. -/
def Response.items : Response → List Item
  | .stay items | .take items => items
  | .refuse _ => []

section Delimited

variable {rest : List Item} (hends : ((finish rest).headD .done).endsPhrase = true) (h : Delimited rest)

include hends h

theorem Ty.delimited_headResponse (min : Nat) (l : Lexeme) : Delimited ((headResponse min l).items ++ rest) := by
  unfold headResponse
  split
  · exact ⟨fun _ => hends, fun _ => hends, h⟩
  · exact ⟨fun _ => rfl, nofun, fun _ => hends, h⟩
  · split
    · exact ⟨fun _ => hends, h⟩
    · exact h
  · exact h

theorem Ty.delimited_climbResponse (min level : Nat) (l : Lexeme) :
    Delimited ((climbResponse min level l).items ++ rest) := by
  unfold climbResponse
  split
  · exact h
  · split
    · exact h
    · exact ⟨fun _ => hends, fun _ => hends, h⟩

theorem Expr.delimited_headResponse (min : Nat) (l : Lexeme) :
    Delimited ((headResponse min l).items ++ rest) := by
  have hatom : Delimited (.climb .expr min atomLevel :: rest) := ⟨fun _ => hends, h⟩
  have hunary : Delimited (.climb .expr min prefixLevel :: rest) := ⟨fun _ => hends, h⟩
  have hbinder : Delimited (.climb .expr min lowest :: rest) := ⟨fun _ => hends, h⟩
  cases l with
  | name x => exact hatom
  | index n => exact hatom
  | sample s => exact hatom
  | symbol s =>
    cases s with
    | bang => exact ⟨fun _ => hends, hunary⟩
    | backslash => exact ⟨nofun, nofun, fun _ => hends, hbinder⟩
    | ampersand => exact ⟨nofun, nofun, fun _ => hends, hbinder⟩
    | leftParen => exact ⟨fun _ => rfl, nofun, hatom⟩
    | _ => exact h
  | keyword k =>
    cases k with
    | inl => exact ⟨fun _ => hends, hunary⟩
    | inr => exact ⟨fun _ => hends, hunary⟩
    | letWord => exact ⟨nofun, nofun, fun _ => rfl, nofun, fun _ => hends, hbinder⟩
    | caseWord =>
      exact ⟨fun _ => rfl, nofun, nofun, nofun, nofun, fun _ => rfl, nofun, nofun, nofun, nofun,
        fun _ => rfl, nofun, hatom⟩
    | _ => exact h
  | done => exact h

theorem Expr.delimited_climbResponse (min level : Nat) (l : Lexeme) :
    Delimited ((climbResponse min level l).items ++ rest) := by
  unfold climbResponse
  split
  · exact h
  · rename_i op _
    split
    · exact h
    · cases op <;> exact ⟨fun _ => hends, fun _ => hends, h⟩

end Delimited

theorem delimited_fixed {rest : List Item} (wanted l : Lexeme) (h : Delimited rest) :
    Delimited ((Item.fixed wanted l).items ++ rest) := by
  unfold Item.fixed
  split <;> exact h

-- Whatever an item is replaced by, the phrases in it are followed by what ends them.
theorem Delimited.response {i : Item} {rest : List Item} (h : Delimited (i :: rest)) (l : Lexeme) :
    Delimited ((i.response l).items ++ rest) := by
  obtain ⟨hends, h⟩ := h
  cases i with
  | symbol s => exact delimited_fixed _ l h
  | keyword k => exact delimited_fixed _ l h
  | name => cases l <;> exact h
  | phrase k min => exact ⟨hends, h⟩
  | head k min =>
    cases k with
    | ty => exact Ty.delimited_headResponse (hends rfl) h min l
    | expr => exact Expr.delimited_headResponse (hends rfl) h min l
  | climb k min level =>
    cases k with
    | ty => exact Ty.delimited_climbResponse (hends rfl) h min level l
    | expr => exact Expr.delimited_climbResponse (hends rfl) h min level l
  | binding =>
    cases l with
    | symbol s =>
      cases s with
      | leftParen => exact ⟨nofun, nofun, nofun, nofun, h⟩
      | _ => exact h
    | _ => exact h
  | close =>
    cases l with
    | symbol s =>
      cases s with
      | comma => exact ⟨fun _ => rfl, nofun, h⟩
      | _ => exact h
    | _ => exact h

namespace Progress

variable {limit : Nat} {p q : Progress}

theorem delimited_turn (hp : Delimited p.agenda) (h : p.turn limit = .ok (some q)) :
    Delimited q.agenda := by
  obtain ⟨i, rest, items, hagenda, -, hagenda', hresponse⟩ := turn_cases h
  rw [hagenda] at hp
  have hafter := hp.response p.cursor.next
  rw [hagenda']
  obtain ⟨hresponse, -⟩ | ⟨hresponse, -⟩ := hresponse
  · rw [hresponse] at hafter
    exact hafter
  · rw [hresponse] at hafter
    exact hafter

theorem Reaches.delimited (h : p.Reaches limit q) (hp : Delimited p.agenda) : Delimited q.agenda := by
  induction h with
  | refl => exact hp
  | tail _ hturn ih => exact delimited_turn ih hturn

theorem delimited_start (k : Category) (tokens : List Token) : Delimited (start k tokens).agenda :=
  ⟨fun _ => rfl, trivial⟩

end Progress

theorem Item.isWritable_finish (i : Item) : ∀ l ∈ i.finish, l.IsWritable := by
  have hunit : IsWord "unit" := ⟨by decide, by decide, by decide⟩
  cases i <;> simp [Item.finish, hunit]

theorem isWritable_finish (agenda : List Item) : ∀ l ∈ finish agenda, l.IsWritable := by
  intro l hl
  obtain ⟨i, -, hi⟩ := List.mem_flatMap.mp hl
  exact i.isWritable_finish l hi

section Finish

variable {limit : Nat} {rest : List Item} {c : Cursor}

/-- From here on the turns end with all read, if what comes is `ls` and then the end of the text. -/
def Concludes (limit : Nat) (agenda : List Item) (ls : List Lexeme) : Prop :=
  ∀ c : Cursor, c.lexemes = ls ++ [.done] →
    ∃ q, Progress.Reaches limit ⟨agenda, c⟩ q ∧ q.turn limit = .ok none

theorem Concludes.took {i : Item} {l : Lexeme} {ls : List Lexeme} {items : List Item}
    (h : Concludes limit (items ++ rest) ls)
    (hresponse : i.response l = .take items) (hfits : i.fits limit (openPhrases rest) = true) :
    Concludes limit (i :: rest) (l :: ls) := by
  intro c hc
  obtain ⟨q, hq, hend⟩ := h c.skip (Cursor.lexemes_skip hc)
  have hnext := Cursor.next_of_lexemes hc
  exact ⟨q, hq.head (Progress.turn_of_take hfits (hnext ▸ hresponse)), hend⟩

theorem Concludes.stayed {i : Item} {ls : List Lexeme} {items : List Item}
    (h : Concludes limit (items ++ rest) ls) (hresponse : i.response (ls.headD .done) = .stay items)
    (hfits : i.fits limit (openPhrases rest) = true) : Concludes limit (i :: rest) ls := by
  intro c hc
  obtain ⟨q, hq, hend⟩ := h c hc
  have hnext : c.next = ls.headD .done := by
    rw [Cursor.next_eq_headD, hc]
    cases ls <;> rfl
  exact ⟨q, hq.head (Progress.turn_of_stay hfits (hnext ▸ hresponse)), hend⟩

theorem climb_endsPhrase (k : Category) (min level : Nat) {l : Lexeme} (h : l.endsPhrase = true) :
    Item.response (.climb k min level) l = .stay [] := by
  simp only [Lexeme.endsPhrase, Bool.and_eq_true, Option.isNone_iff_eq_none] at h
  cases k with
  | ty => simp only [Item.response, Ty.climbResponse, h.1]
  | expr => simp only [Item.response, Expr.climbResponse, h.2]

/-- An agenda whose phrases fit and are followed by what ends them is finished by its lexemes. -/
theorem concludes_finish {agenda : List Item} (hfits : AllFit limit agenda) (hends : Delimited agenda) :
    Concludes limit agenda (finish agenda) := by
  induction agenda with
  | nil =>
    intro c hc
    refine ⟨⟨[], c⟩, .refl, ?_⟩
    simp [Progress.turn, Cursor.next_of_lexemes hc]
  | cons i rest ih =>
    obtain ⟨hi, hrest⟩ := hfits
    have hbehind := ih hrest hends.2
    have hclimb (k : Category) (min level : Nat) (h : ((finish rest).headD .done).endsPhrase = true) :
        Concludes limit (.climb k min level :: rest) (finish rest) :=
      hbehind.stayed (climb_endsPhrase k min level h) rfl
    have hhead (k : Category) (min : Nat) (h : ((finish rest).headD .done).endsPhrase = true) :
        Concludes limit (.head k min :: rest) (.name "unit" :: finish rest) := by
      cases k with
      | ty => exact (hclimb .ty min _ h).took rfl rfl
      | expr => exact (hclimb .expr min _ h).took rfl rfl
    cases i with
    | symbol s => exact hbehind.took (if_pos rfl) rfl
    | keyword k => exact hbehind.took (if_pos rfl) rfl
    | name => exact hbehind.took rfl rfl
    | binding => exact hbehind.took rfl rfl
    | close => exact hbehind.took rfl rfl
    | phrase k min => exact (hhead k min (hends.1 rfl)).stayed rfl hi
    | head k min => exact hhead k min (hends.1 rfl)
    | climb k min level => exact hclimb k min level (hends.1 rfl)

end Finish

end SampleStream
