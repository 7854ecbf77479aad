import SampleStream.Command.Line
import SampleStream.Proofs.Cursor

/-!
# Numbers set on a command line

Whatever level of a line a number is set at, the last text that the words give for it counts: the one attached
to the last name that it has, or the word behind that name (`Setting.texts`). A level takes the texts among its
own words, of which there is at most one (`Setting.Took`), and an argument behind the name of the command wins
over one in front of it, so that what the line sets can be told from its words alone
(`Invocation.exists_given_ofWords`).
-/

namespace SampleStream

/-- A number that a command line may set. -/
structure Setting where
  long : String
  /-- What a text is read as. -/
  read : String → Option Nat
  /-- The number of an argument that sets it. -/
  pick : Argument → Option Nat

/-- What may become of the parameter. -/
inductive Parameter.Makes (p : Parameter) : Argument → Prop
  | flag {a : Argument} (hform : p.form = .flag a) : Makes p a
  | value {read : String → Option Argument} {text : String} {a : Argument} (hform : p.form = .value read)
      (hread : read text = some a) : Makes p a

/-- The parameter that has the name of the number sets it to what its text is read as; another does not set
it. -/
inductive Parameter.Serves (p : Parameter) (o : Setting) : Prop
  | own {read : String → Option Argument} (hlong : p.long = o.long) (hshort : p.short = none)
      (hform : p.form = .value read) (hread : ∀ text, (read text).map o.pick = (o.read text).map some)
  | other (hlong : p.long ≠ o.long) (hpick : ∀ a, p.Makes a → o.pick a = none)

/-- One parameter of the level sets the number, and nothing else does. -/
structure Level.Serves (level : Level) (o : Setting) : Prop where
  parameters : ∀ p ∈ level.parameters, p.Serves o
  place : ∀ word a, level.place word = some a → o.pick a = none

namespace Setting

def quantumSize : Setting :=
  ⟨"quantum-size", Argument.size?, fun | .quantumSize n => some n | _ => none⟩

def channels : Setting :=
  ⟨"channels", Argument.size?, fun | .channels n => some n | _ => none⟩

def sampleRate : Setting :=
  ⟨"sample-rate", Argument.number? true UInt32.size, fun | .sampleRate n => some n | _ => none⟩

def renderPriority : Setting :=
  ⟨"render-priority", Argument.number? true UInt8.size, fun | .renderPriority n => some n | _ => none⟩

/-- The texts that words give for the number, in order. There are no names behind two dashes alone. -/
def texts (o : Setting) : List String → List String
  | [] => []
  | word :: rest =>
    match word.toList with
    | ['-', '-'] => []
    | '-' :: '-' :: cs =>
      if String.ofList (splitAttached cs).1 = o.long then
        ((splitAttached cs).2 <|> rest.head?).toList ++ o.texts rest
      else o.texts rest
    | _ => o.texts rest

/-- The words set the number to what their last text for it is read as, or do not set it. -/
def GivenBy (o : Setting) (words : List String) (value : Option Nat) : Prop :=
  (o.texts words).getLast?.map o.read = value.map some

theorem GivenBy.lt {o : Setting} {words : List String} {value : Option Nat} {bound : Nat}
    (h : o.GivenBy words value) (hread : ∀ text n, o.read text = some n → n < bound) :
    ∀ n, value = some n → n < bound := by
  rintro n rfl
  obtain ⟨text, -, htext⟩ := Option.map_eq_some_iff.mp h
  exact hread text n htext

/-- The text that a waiting parameter is to have. -/
def due (o : Setting) (waiting : Option Parameter) (words : List String) : List String :=
  match waiting with
  | some p => if p.long = o.long then words.head?.toList else []
  | none => []

/-- From the one reading to the other these texts have been taken for the number. -/
structure Took (o : Setting) (r next : Reading) (taken : List String) : Prop where
  values : ∃ values, next.given.filterMap o.pick = r.given.filterMap o.pick ++ values ∧
    taken.map o.read = values.map some
  once : taken.length ≤ 1
  unused : o.long ∈ r.used → taken = []
  used : o.long ∈ r.used ∨ taken ≠ [] → o.long ∈ next.used

variable {o : Setting} {r next last : Reading} {taken more words : List String}

theorem Took.refl (o : Setting) (r : Reading) : o.Took r r [] where
  values := ⟨[], (List.append_nil _).symm, rfl⟩
  once := Nat.zero_le 1
  unused _ := rfl
  used h := h.resolve_right (not_not_intro rfl)

theorem Took.trans (h : o.Took r next taken) (hmore : o.Took next last more) : o.Took r last (taken ++ more) where
  values := by
    obtain ⟨values, hgiven, hread⟩ := h.values
    obtain ⟨others, hothers, hmore⟩ := hmore.values
    refine ⟨values ++ others, ?_, ?_⟩
    · rw [hothers, hgiven, List.append_assoc]
    · rw [List.map_append, List.map_append, hread, hmore]
  once := by
    by_cases htaken : taken = []
    · rw [htaken]
      exact hmore.once
    · rw [hmore.unused (h.used (.inr htaken)), List.append_nil]
      exact h.once
  unused hused := by
    rw [h.unused hused, hmore.unused (h.used (.inl hused))]
    rfl
  used hused := by
    by_cases hnone : more = []
    · rw [hnone, List.append_nil] at hused
      exact hmore.used (.inl (h.used hused))
    · exact hmore.used (.inr hnone)

theorem Took.nil_or_singleton (h : o.Took r next taken) :
    (taken = [] ∧ next.given.filterMap o.pick = r.given.filterMap o.pick) ∨
      ∃ text n, taken = [text] ∧ o.read text = some n ∧
        next.given.filterMap o.pick = r.given.filterMap o.pick ++ [n] := by
  obtain ⟨values, hgiven, hread⟩ := h.values
  cases taken with
  | nil =>
    obtain rfl : values = [] := List.map_eq_nil_iff.mp hread.symm
    exact .inl ⟨rfl, hgiven.trans (List.append_nil _)⟩
  | cons text rest =>
    obtain rfl : rest = [] := List.eq_nil_of_length_eq_zero (Nat.le_zero.mp (Nat.le_of_succ_le_succ h.once))
    obtain ⟨n, rfl, hn⟩ := List.map_eq_singleton_iff.mp hread.symm
    exact .inr ⟨text, n, rfl, hn.symm, hgiven⟩

-- An argument that does not set the number.
theorem took_other {a : Argument} (hpick : o.pick a = none) (hgiven : next.given = r.given ++ [a])
    (hused : r.used ⊆ next.used) : o.Took r next [] where
  values := by
    refine ⟨[], ?_, rfl⟩
    rw [hgiven, List.filterMap_append, List.filterMap_cons_none hpick, List.filterMap_nil]
  once := Nat.zero_le 1
  unused _ := rfl
  used h := hused (h.resolve_right (not_not_intro rfl))

theorem exists_of_set {p : Parameter} {a : Option Argument} (h : r.set p a = .ok next) :
    ∃ b, a = some b ∧ p.long ∉ r.used ∧ next = { r with used := p.long :: r.used, given := r.given ++ [b] } := by
  unfold Reading.set at h
  split at h
  · rename_i b
    split at h
    · cases h
    · rename_i hnew
      cases h
      exact ⟨b, rfl, by simpa using hnew, rfl⟩
  · cases h

theorem exists_of_set_map {p : Parameter} {a : Option Argument} {waiting : Option Parameter}
    (h : (r.set p a).map (·, (none : Option Parameter)) = .ok (next, waiting)) :
    waiting = none ∧ ∃ b, a = some b ∧ p.long ∉ r.used ∧
      next = { r with used := p.long :: r.used, given := r.given ++ [b] } := by
  cases hset : r.set p a with
  | error s =>
    rw [hset] at h
    cases h
  | ok given =>
    rw [hset] at h
    cases h
    exact ⟨rfl, exists_of_set hset⟩

-- What a name takes with it, and what its parameter is still to have.
theorem took_name {p : Parameter} {attached : Option String} {waiting : Option Parameter} (hp : p.Serves o)
    (h : r.name p attached = .ok (next, waiting)) (rest : List String) :
    ∃ taken, o.Took r next taken ∧
      taken ++ o.due waiting rest = (if p.long = o.long then (attached <|> rest.head?).toList else []) ∧
      ∀ w, waiting = some w → w = p := by
  unfold Reading.name at h
  cases hp with
  | @own read hlong hshort hform hread =>
    rw [hform] at h
    rw [if_pos hlong]
    cases attached with
    | none =>
      cases h
      exact ⟨[], .refl o r, by rw [due, if_pos hlong]; rfl, fun w hw => (Option.some.inj hw).symm⟩
    | some text =>
      obtain ⟨rfl, a, ha, hnew, rfl⟩ := exists_of_set_map h
      have hvalue := hread text
      rw [ha, Option.map_some] at hvalue
      obtain ⟨n, hn, hpick⟩ := Option.map_eq_some_iff.mp hvalue.symm
      refine ⟨[text], ⟨⟨[n], ?_, ?_⟩, Nat.le_refl 1, fun hused => ?_, fun _ => ?_⟩, rfl, nofun⟩
      · rw [List.filterMap_append, List.filterMap_cons_some hpick.symm, List.filterMap_nil]
      · rw [List.map_singleton, List.map_singleton, hn]
      · exact absurd (hlong ▸ hused) hnew
      · exact hlong ▸ List.mem_cons_self
  | other hlong hpick =>
    rw [if_neg hlong]
    split at h
    · cases h
    · rename_i a hform
      obtain ⟨rfl, b, hb, -, rfl⟩ := exists_of_set_map h
      cases hb
      exact ⟨[], took_other (hpick _ (.flag hform)) rfl (List.subset_cons_self _ _), rfl, nofun⟩
    · rename_i read text hform
      obtain ⟨rfl, a, ha, -, rfl⟩ := exists_of_set_map h
      exact ⟨[], took_other (hpick _ (.value hform ha)) rfl (List.subset_cons_self _ _), rfl, nofun⟩
    · cases h
      exact ⟨[], .refl o r, by rw [due, if_neg hlong]; rfl, fun w hw => (Option.some.inj hw).symm⟩
    · cases h

section Words

variable {word : String} {cs : List Char}

theorem due_nil (o : Setting) (waiting : Option Parameter) : o.due waiting [] = [] := by
  unfold due
  split
  · split <;> rfl
  · rfl

theorem texts_dashes (hword : word.toList = ['-', '-']) (rest : List String) : o.texts (word :: rest) = [] := by
  simp [texts, hword]

theorem texts_name (hword : word.toList = '-' :: '-' :: cs) (hcs : cs ≠ []) (rest : List String) :
    o.texts (word :: rest) = (if String.ofList (splitAttached cs).1 = o.long then
      ((splitAttached cs).2 <|> rest.head?).toList else []) ++ o.texts rest := by
  rw [texts, hword]
  split
  · rename_i heq
    cases heq
    exact absurd rfl hcs
  · rename_i heq
    cases heq
    split <;> rfl
  · rename_i hname
    exact (hname cs rfl).elim

theorem texts_plain (hword : ∀ cs, word.toList ≠ '-' :: '-' :: cs) (rest : List String) :
    o.texts (word :: rest) = o.texts rest := by
  rw [texts]
  split
  · rename_i hdashes
    exact absurd hdashes (hword _)
  · rename_i hdashes
    exact absurd hdashes (hword _)
  · rfl

end Words

section Levels

variable {level : Level} {word : String} (hlevel : level.Serves o)

include hlevel

theorem took_place (h : r.place level word = .ok next) : o.Took r next [] := by
  unfold Reading.place at h
  split at h
  · rename_i a ha
    split at h
    · cases h
      exact took_other (hlevel.place word a ha) rfl (List.Subset.refl _)
    · cases h
  · cases h

theorem took_places (h : words.foldlM (Reading.place level) r = .ok next) : o.Took r next [] := by
  induction words generalizing r with
  | nil =>
    cases h
    exact .refl o _
  | cons word words ih =>
    rw [List.foldlM_cons] at h
    obtain ⟨placed, hplaced, h⟩ := exists_of_bind_eq_ok h
    exact (took_place hlevel hplaced).trans (ih h)

-- A word that begins with a dash takes its text along, or leaves it to the word behind.
theorem took_dashed {c : Char} {cs : List Char} {waiting : Option Parameter} (hword : word.toList = '-' :: c :: cs)
    (hdashes : c = '-' → cs ≠ []) (h : level.dashed r (c :: cs) = .ok (next, waiting)) (rest : List String) :
    ∃ taken, o.Took r next taken ∧ taken ++ o.due waiting rest ++ o.texts rest = o.texts (word :: rest) ∧
      ∀ w, waiting = some w → w ∈ level.parameters := by
  unfold Level.dashed at h
  split at h
  · rename_i cs heq
    cases heq
    dsimp only at h
    split at h
    · rename_i p hp
      have hmem := List.mem_of_find?_eq_some hp
      obtain ⟨taken, htook, htaken, hwaits⟩ := took_name (hlevel.parameters p hmem) h rest
      have hname : p.long = String.ofList (splitAttached cs).1 := by
        simpa using List.find?_some hp
      refine ⟨taken, htook, ?_, fun w hw => hwaits w hw ▸ hmem⟩
      rw [htaken, texts_name hword (hdashes rfl), hname]
    · cases h
  · rename_i d ds hdash heq
    cases heq
    split at h
    · rename_i p hp
      have hmem := List.mem_of_find?_eq_some hp
      have hshort : p.short = some c := by simpa using List.find?_some hp
      have hother : p.long ≠ o.long := by
        intro hlong
        cases hlevel.parameters p hmem with
        | own _ hnone => rw [hnone] at hshort; cases hshort
        | other hne => exact hne hlong
      unfold Reading.shortName at h
      split at h
      · cases h
      · obtain ⟨taken, htook, htaken, hwaits⟩ := took_name (hlevel.parameters p hmem) h rest
        rw [if_neg hother] at htaken
        refine ⟨taken, htook, ?_, fun w hw => hwaits w hw ▸ hmem⟩
        rw [htaken, texts_plain fun cs heq => ?_, List.nil_append]
        rw [hword] at heq
        cases heq
        exact hdash rfl
    · cases h
  · cases h

-- A level takes the texts of its own words, and ends at the name of a command or with the line.
theorem took_read {waiting : Option Parameter} {rest : Option (String × List String)}
    (hwaiting : ∀ w, waiting = some w → w ∈ level.parameters)
    (h : level.read r waiting words = .ok (next, rest)) :
    ∃ taken, o.Took r next taken ∧
      o.due waiting words ++ o.texts words = taken ++ o.texts (rest.elim [] Prod.snd) ∧
      ∀ found, rest = some found → found.1 ∈ level.commands := by
  fun_induction Level.read level r waiting words with
  | case1 r =>
    cases h
    exact ⟨[], .refl o _, rfl, nofun⟩
  | case2 => cases h
  | case3 => cases h
  | case4 r word words p hplain ih =>
    obtain ⟨⟨named, waiting⟩, hnamed, h⟩ := exists_of_bind_eq_ok h
    obtain ⟨taken, htook, htaken, -⟩ := took_name (hlevel.parameters p (hwaiting p rfl)) hnamed []
    obtain ⟨others, hothers, htexts, hrest⟩ := ih (named, waiting) nofun h
    refine ⟨taken ++ others, htook.trans hothers, ?_, hrest⟩
    rw [due_nil, List.append_nil] at htaken
    have hnext : o.texts words = others ++ o.texts (rest.elim [] Prod.snd) := htexts
    rw [texts_plain (fun cs hcs => hplain _ _ hcs) words, hnext, List.append_assoc, htaken]
    rfl
  | case5 r word words hdashes =>
    obtain ⟨placed, hplaced, h⟩ := exists_of_bind_eq_ok h
    cases h
    exact ⟨[], took_places hlevel hplaced, texts_dashes hdashes words, nofun⟩
  | case6 r word words c cs hdashes hword ih =>
    obtain ⟨⟨dashed, waiting⟩, hdashed, h⟩ := exists_of_bind_eq_ok h
    obtain ⟨taken, htook, htaken, hwaits⟩ := took_dashed hlevel hword hdashes hdashed words
    obtain ⟨others, hothers, htexts, hrest⟩ := ih dashed waiting hwaits h
    refine ⟨taken ++ others, htook.trans hothers, ?_, hrest⟩
    rw [due, List.nil_append, ← htaken, List.append_assoc, htexts, List.append_assoc]
  | case7 r word words hcommand _ hplain =>
    cases h
    exact ⟨[], .refl o _, texts_plain (fun cs => hplain _ _) words,
      fun found hfound => by cases hfound; simpa using hcommand⟩
  | case8 r word words _ _ hplain ih =>
    obtain ⟨placed, hplaced, h⟩ := exists_of_bind_eq_ok h
    obtain ⟨others, hothers, htexts, hrest⟩ := ih placed nofun h
    refine ⟨others, (took_place hlevel hplaced).trans hothers, ?_, hrest⟩
    rw [← htexts, due, List.nil_append, due, List.nil_append, texts_plain fun cs => hplain _ _]

end Levels

end Setting

namespace Parameter

variable {o : Setting} {long : String} {short : Option Char}

theorem serves_of_pick {read : String → Option Nat} {make : Nat → Argument} (hlong : long = o.long)
    (hread : o.read = read) (hpick : ∀ n, o.pick (make n) = some n) :
    (Parameter.mk long none (.value fun t => (read t).map make)).Serves o := by
  refine .own hlong rfl rfl fun text => ?_
  rw [Option.map_map, hread]
  exact congrFun (congrArg Option.map (funext hpick)) _

theorem serves_of_value {β : Type} {read : String → Option β} {make : β → Argument} (hlong : long ≠ o.long)
    (hpick : ∀ b, o.pick (make b) = none) :
    (Parameter.mk long short (.value fun t => (read t).map make)).Serves o := by
  refine .other hlong fun a ha => ?_
  cases ha with
  | flag hform => cases hform
  | value hform hread =>
    cases hform
    obtain ⟨b, -, rfl⟩ := Option.map_eq_some_iff.mp hread
    exact hpick b

theorem serves_of_text {make : String → Argument} (hlong : long ≠ o.long) (hpick : ∀ text, o.pick (make text) = none) :
    (Parameter.mk long short (.value fun t => some (make t))).Serves o :=
  @serves_of_value o long short String some make hlong hpick

theorem serves_of_flag {a : Argument} (hlong : long ≠ o.long) (hpick : o.pick a = none) :
    (Parameter.mk long short (.flag a)).Serves o := by
  refine .other hlong fun b hb => ?_
  cases hb with
  | flag hform =>
    cases hform
    exact hpick
  | value hform => cases hform

theorem serves_of_stop {s : Stop} (hlong : long ≠ o.long) : (Parameter.mk long short (.stop s)).Serves o := by
  refine .other hlong fun b hb => ?_
  cases hb with
  | flag hform => cases hform
  | value hform => cases hform

end Parameter

/-- Every parameter that the program knows. -/
def Parameter.all : List Parameter :=
  .help :: .version :: shared ++ parse ++ render

/-- Every number that can be set. -/
def Setting.all : List Setting :=
  [quantumSize, channels, sampleRate, renderPriority]

section All

variable {o : Setting} (ho : o ∈ Setting.all)

include ho

theorem Parameter.serves_all : ∀ p ∈ Parameter.all, p.Serves o := by
  revert o
  simp only [Setting.all, Parameter.all, shared, parse, render, List.cons_append, List.nil_append,
    List.forall_mem_cons]
  -- each number with each parameter: its own, or one of another name
  and_intros
  all_goals first
    | exact serves_of_pick rfl rfl (fun _ => rfl)
    | exact serves_of_value (by decide) (fun _ => rfl)
    | exact serves_of_text (by decide) (fun _ => rfl)
    | exact serves_of_flag (by decide) rfl
    | exact serves_of_stop (by decide)
    | exact nofun

theorem Setting.pick_file (path : String) : o.pick (.file path) = none := by
  revert o
  simp only [all, List.forall_mem_cons]
  exact ⟨rfl, rfl, rfl, rfl, nofun⟩

namespace Level

theorem serves_program : program.Serves o where
  parameters p hp := Parameter.serves_all ho p (List.mem_append_left _ (List.mem_append_left _ hp))
  place := nofun

theorem serves_parse : parse.Serves o where
  parameters p hp := Parameter.serves_all ho p (by
    simp only [parse, Parameter.all, List.mem_append, List.mem_cons] at hp ⊢
    grind)
  place word a h := by
    obtain ⟨path, -, rfl⟩ := Option.map_eq_some_iff.mp h
    exact Setting.pick_file ho path

theorem serves_render : render.Serves o where
  parameters p hp := Parameter.serves_all ho p (by
    simp only [render, Parameter.all, List.mem_append, List.mem_cons] at hp ⊢
    grind)
  place := nofun

end Level

end All

namespace Invocation

variable {o : Setting} {words front : List String} {outer inner : Reading} {i : Invocation}

-- Of the texts that two levels took the last is that of the inner one, if it took any.
theorem givenBy_of_took {taken more : List String} (houter : o.Took {} outer taken) (hinner : o.Took {} inner more)
    (htexts : o.texts words = taken ++ more) : o.GivenBy words (first (inner.given ++ outer.given) o.pick) := by
  unfold Setting.GivenBy first
  rw [htexts, ← List.head?_filterMap, List.filterMap_append]
  obtain ⟨rfl, hmore⟩ | ⟨text, n, rfl, hread, hmore⟩ := hinner.nil_or_singleton
  · obtain ⟨rfl, htaken⟩ | ⟨text, n, rfl, hread, htaken⟩ := houter.nil_or_singleton
    · rw [hmore, htaken]
      rfl
    · rw [hmore, htaken, List.append_nil, List.getLast?_singleton, Option.map_some, hread]
      rfl
  · rw [hmore, List.getLast?_append, List.getLast?_singleton, Option.some_or, Option.map_some, hread]
    rfl

theorem exists_given_ofLevels {level : Level} {command : List Argument → Except Stop Command}
    (hlevel : ∀ o ∈ Setting.all, level.Serves o) (hlast : level.commands = [])
    (houter : ∀ o ∈ Setting.all, ∃ taken, o.Took {} outer taken ∧ o.texts front = taken ++ o.texts words)
    (h : ofLevels level command outer.given words = .ok i) :
    ∃ given, i.overrides = overridesOf given ∧ ∀ o ∈ Setting.all, o.GivenBy front (first given o.pick) := by
  obtain ⟨⟨inner, rest⟩, hinner, h⟩ := exists_of_bind_eq_ok h
  obtain ⟨made, -, h⟩ := exists_of_bind_eq_ok h
  cases h
  refine ⟨_, rfl, fun o ho => ?_⟩
  obtain ⟨taken, htook, htexts⟩ := houter o ho
  obtain ⟨more, hmore, hown, hrest⟩ :=
    Setting.took_read (hlevel o ho) (fun w hw => by cases hw) hinner
  -- no command is named within a command, so the line ends here
  obtain rfl : rest = none := by
    rw [Option.eq_none_iff_forall_ne_some]
    intro found hfound
    exact absurd (hrest found hfound) (hlast ▸ List.not_mem_nil)
  refine givenBy_of_took htook hmore ?_
  rw [htexts, show o.texts words = more ++ [] from hown, List.append_nil]

/-- Of the arguments of a line, the first that sets a number is what the words give for it. -/
theorem exists_given_ofWords (h : ofWords words = .ok i) :
    ∃ given, i.overrides = overridesOf given ∧ ∀ o ∈ Setting.all, o.GivenBy words (first given o.pick) := by
  obtain ⟨⟨outer, found⟩, houter, h⟩ := exists_of_bind_eq_ok h
  dsimp only at h
  split at h
  · cases h
  · rename_i name rest
    have htook (o : Setting) (ho : o ∈ Setting.all) :
        ∃ taken, o.Took {} outer taken ∧ o.texts words = taken ++ o.texts rest := by
      obtain ⟨taken, htook, htexts, -⟩ :=
        Setting.took_read (Level.serves_program ho) (fun w hw => by cases hw) houter
      exact ⟨taken, htook, htexts⟩
    split at h
    · exact exists_given_ofLevels (fun _ => Level.serves_parse) rfl htook h
    · split at h
      · exact exists_given_ofLevels (fun _ => Level.serves_render) rfl htook h
      · cases h

-- The text behind the name of the command counts, and behind two dashes there is none.
example : Setting.channels.texts ["--channels", "1", "parse", "--channels=2", "--", "--channels"] = ["1", "2"] := by
  decide +kernel

end Invocation

end SampleStream
