import Mathlib.Data.List.Forall2
import Mathlib.Data.List.Nodup
import Mathlib.Data.List.Perm.Basic
import SampleStream.Proofs.Json.Writing
import SampleStream.Wire

/-!
# Values survive the wire

What is written for a value is read as the value, and so is any text that spells it: with any blanks, with the
members in any order, and with members that the value does not know (`Json.Rearranged`). What is read from any
text at all is written so that it is read again (`wire_round_trip`).
-/

namespace SampleStream

theorem mapM_eq_some_iff {α β : Type} {f : α → Option β} {as : List α} {bs : List β} :
    as.mapM f = some bs ↔ List.Forall₂ (fun a b => f a = some b) as bs := by
  induction as generalizing bs with
  | nil =>
    rw [List.forall₂_nil_left_iff]
    exact ⟨fun h => (Option.some.inj h).symm, fun h => congrArg some h.symm⟩
  | cons a as ih =>
    rw [List.mapM_cons, List.forall₂_cons_left_iff]
    constructor
    · intro h
      obtain ⟨b, hb, h⟩ := Option.bind_eq_some_iff.mp h
      obtain ⟨rest, hrest, h⟩ := Option.bind_eq_some_iff.mp h
      exact ⟨b, rest, hb, ih.mp hrest, (Option.some.inj h).symm⟩
    · rintro ⟨b, rest, hb, hrest, rfl⟩
      rw [hb, ih.mpr hrest]
      rfl

theorem exists_of_mapM {α β : Type} {f : α → Option β} {as : List α} {bs : List β}
    (h : as.mapM f = some bs) {b : β} (hb : b ∈ bs) : ∃ a ∈ as, f a = some b := by
  have hall := mapM_eq_some_iff.mp h
  clear h
  induction hall with
  | nil => cases hb
  | @cons a b' as bs hfirst _ ih =>
    rcases List.mem_cons.mp hb with rfl | hb
    · exact ⟨a, List.mem_cons_self, hfirst⟩
    · obtain ⟨a', ha', hf⟩ := ih hb
      exact ⟨a', List.mem_cons_of_mem _ ha', hf⟩

namespace Json

/-- The members in any order, with further ones under other names. -/
def Extends (members more : List (Option String × Json)) : Prop :=
  ∃ extra : List (Option String × Json),
    (∀ m ∈ extra, ∃ name, m.1 = some name ∧ ∀ known ∈ members, known.1 ≠ some name) ∧
      more.Perm (members ++ extra)

/-- The same value, but for the order of the members of an object and for members it does not know. -/
inductive Rearranged : Json → Json → Prop
  | same (j : Json) : Rearranged j j
  | object {members more : List (Option String × Json)} (h : Extends members more) :
    Rearranged (.object members) (.object more)

variable {members more : List (Option String × Json)}

theorem Extends.of_rearranged {j : Json} (h : Rearranged (.object members) j) :
    ∃ more, j = .object more ∧ Extends members more := by
  cases h with
  | same =>
    refine ⟨members, rfl, [], nofun, ?_⟩
    rw [List.append_nil]
  | object h => exact ⟨_, rfl, h⟩

theorem Extends.keys (h : Extends members more) (hkeys : ∀ m ∈ members, m.1.isSome = true) :
    more.all (·.1.isSome) = true := by
  obtain ⟨extra, hextra, hperm⟩ := h
  rw [List.all_eq_true]
  intro m hm
  rcases List.mem_append.mp (hperm.mem_iff.mp hm) with hm | hm
  · exact hkeys m hm
  · obtain ⟨name, hname, -⟩ := hextra m hm
    rw [hname]
    rfl

theorem filter_key (hnodup : (members.map (·.1)).Nodup) {name : String} {value : Json}
    (h : (some name, value) ∈ members) : members.filter (·.1 == some name) = [(some name, value)] := by
  induction members with
  | nil => cases h
  | cons m members ih =>
    rw [List.map_cons, List.nodup_cons] at hnodup
    rcases List.mem_cons.mp h with rfl | h
    · have hrest : members.filter (·.1 == some name) = [] := by
        rw [List.filter_eq_nil_iff]
        exact fun m hm hkey => hnodup.1 (List.mem_map.mpr ⟨m, hm, beq_iff_eq.mp hkey⟩)
      rw [List.filter_cons, if_pos (beq_self_eq_true _), hrest]
    · have hother : ¬(m.1 == some name) = true := fun hkey =>
        hnodup.1 (List.mem_map.mpr ⟨_, h, (beq_iff_eq.mp hkey).symm⟩)
      rw [List.filter_cons, if_neg hother, ih hnodup.2 h]

-- A member is found by its name wherever it stands, and whatever stands beside it.
theorem Extends.filter_key (h : Extends members more) (hnodup : (members.map (·.1)).Nodup) {name : String}
    {value : Json} (hmember : (some name, value) ∈ members) :
    more.filter (·.1 == some name) = [(some name, value)] := by
  obtain ⟨extra, hextra, hperm⟩ := h
  have hnone : extra.filter (·.1 == some name) = [] := by
    rw [List.filter_eq_nil_iff]
    intro m hm hkey
    obtain ⟨other, hother, hnew⟩ := hextra m hm
    exact hnew _ hmember ((beq_iff_eq.mp hkey).symm.trans hother)
  have hfilter := hperm.filter (·.1 == some name)
  rw [List.filter_append, Json.filter_key hnodup hmember, hnone] at hfilter
  exact List.perm_singleton.mp hfilter

/-- The members of a record. -/
def record (names : List String) (values : List Json) : List (Option String × Json) :=
  (names.zip values).map fun (name, value) => (some name, value)

theorem record_keys (names : List String) (values : List Json) :
    ∀ m ∈ record names values, m.1.isSome = true := by
  intro m hm
  obtain ⟨_, -, rfl⟩ := List.mem_map.mp hm
  rfl

theorem nodup_record {names : List String} {values : List Json} (hnodup : names.Nodup)
    (hlength : names.length = values.length) : ((record names values).map (·.1)).Nodup := by
  have hkeys : (record names values).map (·.1) = names.map some := by
    calc (record names values).map (·.1)
      _ = ((names.zip values).map Prod.fst).map some := by
        rw [record, List.map_map, List.map_map]
        rfl
      _ = names.map some := by rw [List.map_fst_zip (Nat.le_of_eq hlength)]
  rw [hkeys]
  exact hnodup.map (Option.some_injective _)

-- The fields of a record are found in their order.
theorem Extends.fields? {names : List String} {values : List Json} (hnodup : names.Nodup)
    (hlength : names.length = values.length) (h : Extends (record names values) more) :
    fields? names (.object more) = some (values.map some) := by
  unfold Json.fields?
  dsimp only
  rw [if_pos (h.keys (record_keys names values)), mapM_eq_some_iff, List.forall₂_map_right_iff,
    List.forall₂_iff_zip]
  refine ⟨hlength, fun hmem => ?_⟩
  rw [h.filter_key (nodup_record hnodup hlength) (List.mem_map_of_mem hmem)]

theorem natBelow?_nat {n bound : Nat} (h : n < bound) : (nat n).natBelow? bound = some n := by
  have hnat : (Number.ofNat n).nat? = some n := congrArg some (Numeral.value_digits n)
  have hbelow : (nat n).natBelow? bound = (Number.ofNat n).nat?.filter (· < bound) := rfl
  rw [hbelow, hnat, Option.filter_some, if_pos (decide_eq_true h)]

theorem natBelow?_lt {j : Json} {n bound : Nat} (h : j.natBelow? bound = some n) : n < bound := by
  cases j with
  | number m =>
    obtain ⟨-, hlt⟩ := Option.filter_eq_some_iff.mp h
    exact of_decide_eq_true hlt
  | _ => cases h

theorem soundAll_eq_all (room : Nat) (items : List Json) : soundAll room items = items.all (sound room) := by
  induction items with
  | nil => rfl
  | cons j items ih => rw [soundAll, ih, List.all_cons]

end Json

namespace Wire

open Json (Rearranged Extends)

theorem recordJson_eq (names : List String) (ns : List Nat) :
    recordJson names ns = .object (Json.record names (ns.map Json.nat)) := by
  rw [Json.record, List.zip_map_right, List.map_map, List.map_zip_eq_zipWith]
  rfl

theorem plain_recordJson (names : List String) (ns : List Nat) : (recordJson names ns).Plain := by
  rw [recordJson_eq]
  refine .object (Json.record_keys _ _) fun m hm => ?_
  obtain ⟨⟨name, j⟩, hmem, rfl⟩ := List.mem_map.mp hm
  obtain ⟨n, -, rfl⟩ := List.mem_map.mp (List.of_mem_zip hmem).2
  exact .nat n

-- A record of numbers that are within their bounds is read as these numbers.
theorem recordValues?_of_rearranged {names : List String} {ns bounds : List Nat} (hnodup : names.Nodup)
    (hlength : names.length = ns.length) (hbounds : List.Forall₂ (· < ·) ns bounds) {j : Json}
    (h : (recordJson names ns).Rearranged j) : recordValues? names bounds j = some (ns.map some) := by
  rw [recordJson_eq] at h
  obtain ⟨more, rfl, hextends⟩ := Extends.of_rearranged h
  have hfields := hextends.fields? hnodup (hlength.trans (List.length_map _).symm)
  unfold recordValues?
  rw [hfields]
  change List.mapM _ _ = _
  rw [mapM_eq_some_iff]
  clear h hfields hextends hnodup hlength
  induction hbounds with
  | nil => exact .nil
  | cons hlt _ ih =>
    refine .cons ?_ ih
    dsimp only
    rw [Json.natBelow?_nat hlt]
    rfl

-- Whatever numbers are read for a record are within bounds.
theorem lt_of_recordValues? {names : List String} {bounds ns : List Nat} {j : Json}
    (h : recordValues? names bounds j = some (ns.map some)) {n : Nat} (hn : n ∈ ns) :
    ∃ bound ∈ bounds, n < bound := by
  obtain ⟨fields, -, hgive⟩ := Option.bind_eq_some_iff.mp h
  obtain ⟨⟨field, bound⟩, hmem, hvalue⟩ := exists_of_mapM hgive (List.mem_map_of_mem hn)
  cases field with
  | none => cases hvalue
  | some value =>
    obtain ⟨m, hm, hsome⟩ := Option.map_eq_some_iff.mp hvalue
    cases hsome
    exact ⟨bound, (List.of_mem_zip hmem).2, Json.natBelow?_lt hm⟩

/-- The values of the type survive the wire: those in range, in any form that is readable. -/
structure RoundTrips (α : Type) [Wire α] (inRange : α → Prop) (readable : Json → Prop) : Prop where
  /-- What is written for a value is read as the value, -/
  written : ∀ v, inRange v → decode α (encode v) = .ok v
  /-- and so is any text that spells the value, with blanks between its tokens, with its members in another
  order and with others between them. -/
  rearranged : ∀ v, inRange v → ∀ j, (toJson v).Rearranged j → readable j → ∀ text, j.SpelledBy text →
    decode α text = .ok v
  /-- Whatever text a value is read from, the value is in range, and what is written for it is read as it, -/
  again : ∀ text v, decode α text = .ok v → inRange v ∧ decode α (encode v) = .ok v
  /-- so that reading and writing a second time changes nothing. -/
  idempotent : ∀ text once, (decode α text).map encode = .ok once → (decode α once).map encode = .ok once

section Decode

variable {α : Type} [Wire α]

theorem decode_of_spelledBy {j : Json} {text : String} (h : j.SpelledBy text) :
    decode α text = ofJson j := by
  unfold decode
  rw [Json.ofText?_of_spelledBy h]
  dsimp only
  cases (ofJson j : Except WireError α) <;> rfl

theorem exists_ofJson_of_decode {text : String} {v : α} (h : decode α text = .ok v) :
    ∃ j, ofJson j = .ok v := by
  unfold decode at h
  split at h
  · cases h
  · rename_i j complete _
    refine ⟨j, ?_⟩
    cases hvalue : (ofJson j : Except WireError α) with
    | error e =>
      rw [hvalue] at h
      cases h
    | ok w =>
      rw [hvalue] at h
      cases complete with
      | true => exact h
      | false => cases h

/-- It is enough that a value is read from its rearranged forms, and that what is read is in range. -/
theorem RoundTrips.of_ofJson {inRange : α → Prop} {readable : Json → Prop}
    (hplain : ∀ v : α, (toJson v).Plain) (hreadable : ∀ v : α, readable (toJson v))
    (hread : ∀ v : α, inRange v → ∀ j, (toJson v).Rearranged j → readable j → ofJson j = .ok v)
    (hrange : ∀ j, ∀ v : α, ofJson j = .ok v → inRange v) : RoundTrips α inRange readable := by
  have hwritten (v : α) (hv : inRange v) : decode α (encode v) = .ok v :=
    (decode_of_spelledBy (Json.spelledBy_compact (hplain v))).trans
      (hread v hv _ (.same _) (hreadable v))
  have hdecoded (text : String) (v : α) (h : decode α text = .ok v) : inRange v := by
    obtain ⟨j, hj⟩ := exists_ofJson_of_decode h
    exact hrange j v hj
  refine ⟨hwritten, fun v hv j hj hr text htext => ?_, fun text v h => ?_, fun text once h => ?_⟩
  · exact (decode_of_spelledBy htext).trans (hread v hv j hj hr)
  · exact ⟨hdecoded text v h, hwritten v (hdecoded text v h)⟩
  · cases hv : decode α text with
    | error e =>
      rw [hv] at h
      cases h
    | ok v =>
      rw [hv] at h
      cases h
      rw [hwritten v (hdecoded text v hv)]
      rfl

end Decode

theorem roundTrips_span :
    RoundTrips Span (fun s => s.start < UInt64.size ∧ s.stop < UInt64.size) fun _ => True := by
  refine .of_ofJson (fun _ => plain_recordJson _ _) (fun _ => trivial) ?_ fun j s h => ?_
  · rintro ⟨start, stop⟩ ⟨hstart, hstop⟩ j hj -
    have hvalues := recordValues?_of_rearranged (by decide) rfl (.cons hstart (.cons hstop .nil)) hj
    dsimp only [ofJson]
    rw [hvalues]
    rfl
  · dsimp only [ofJson] at h
    split at h
    · rename_i start stop hvalues
      cases h
      have hbound (n : Nat) (hn : n ∈ [start, stop]) : n < UInt64.size := by
        obtain ⟨bound, hmem, hlt⟩ := lt_of_recordValues? hvalues hn
        simp only [List.mem_cons, List.not_mem_nil, or_false, or_self] at hmem
        rwa [hmem] at hlt
      exact ⟨hbound start (.head _), hbound stop (.tail _ (.head _))⟩
    · cases h

theorem roundTrips_stats :
    RoundTrips RenderStats (fun s => ∀ n ∈ statsValues s, n < UInt64.size) fun _ => True := by
  refine .of_ofJson (fun _ => plain_recordJson _ _) (fun _ => trivial) ?_ fun j s h => ?_
  · intro s hs j hj _
    have hbounds : List.Forall₂ (· < ·) (statsValues s) (statsFields.map fun _ => UInt64.size) := by
      rw [List.forall₂_iff_zip]
      refine ⟨rfl, fun hmem => ?_⟩
      obtain ⟨hn, hbound⟩ := List.of_mem_zip hmem
      obtain ⟨_, -, rfl⟩ := List.mem_map.mp hbound
      exact hs _ hn
    have hvalues := recordValues?_of_rearranged (by decide) rfl hbounds hj
    dsimp only [ofJson]
    rw [hvalues]
    rfl
  · dsimp only [ofJson] at h
    split at h
    · rename_i quanta silent failed dropped hvalues
      cases h
      intro n hn
      obtain ⟨bound, hmem, hlt⟩ := lt_of_recordValues? hvalues hn
      obtain ⟨_, -, rfl⟩ := List.mem_map.mp hmem
      exact hlt
    · cases h

theorem roundTrips_config : RoundTrips Config (fun _ => True) fun _ => True := by
  refine .of_ofJson (fun _ => plain_recordJson _ _) (fun _ => trivial) ?_ fun _ _ _ => trivial
  intro c _ j hj _
  have hbounds : List.Forall₂ (· < ·) c.values Config.bounds :=
    .cons c.quantumSize.toNat_lt (.cons c.channels.toNat_lt (.cons c.sampleRate.toNat_lt
      (.cons c.controlCapacity.toNat_lt (.cons c.loaderCapacity.toNat_lt (.cons c.eventCapacity.toNat_lt
        (.cons c.renderPriority.toNat_lt .nil))))))
  have hvalues := recordValues?_of_rearranged (by decide) rfl hbounds hj
  dsimp only [ofJson]
  rw [hvalues]
  exact congrArg Except.ok (Config.ofValues_values {} c)

theorem roundTrips_state : RoundTrips RenderState (fun _ => True) fun _ => True := by
  refine .of_ofJson (fun s => .text s.name) (fun _ => trivial) ?_ fun _ _ _ => trivial
  intro s _ j hj _
  cases hj
  cases s <;> rfl

theorem roundTrips_message : RoundTrips RenderMessage (fun _ => True) fun _ => True := by
  have hplain : (toJson RenderMessage.ready).Plain :=
    .object (List.forall_mem_singleton.mpr rfl) (List.forall_mem_singleton.mpr (.bool true))
  refine .of_ofJson (fun .ready => hplain) (fun _ => trivial) ?_ fun _ _ _ => trivial
  intro v _ j hj _
  cases v
  have hrecord : (Json.object (Json.record ["ready"] [.bool true])).Rearranged j := hj
  obtain ⟨more, rfl, hextends⟩ := Extends.of_rearranged hrecord
  have hfields := hextends.fields? (List.nodup_singleton _) rfl
  dsimp only [ofJson]
  rw [hfields]
  rfl

theorem moduleBytes?_of_extends {bytes : List UInt8} {more : List (Option String × Json)}
    (h : Extends [(some "moduleBytes", .array (bytes.map fun b => .nat b.toNat))] more) :
    moduleBytes? (.object more) = some bytes := by
  have hfilter := h.filter_key (List.nodup_singleton _) (List.mem_singleton.mpr rfl)
  have hbyte : (fun b : UInt8 => ((Json.nat b.toNat).natBelow? 256).map UInt8.ofNat) = fun b => some b := by
    funext b
    rw [Json.natBelow?_nat b.toNat_lt, Option.map_some, UInt8.ofNat_toNat]
  unfold moduleBytes?
  dsimp only
  rw [hfilter]
  dsimp only
  rw [List.mapM_map]
  change bytes.mapM (fun b : UInt8 => ((Json.nat b.toNat).natBelow? 256).map UInt8.ofNat) = some bytes
  rw [hbyte, mapM_eq_some_iff]
  exact List.forall₂_same.mpr fun _ _ => rfl

theorem sound_control (m : ControlMessage) : (toJson m).sound maxDepth = true := by
  have hitems : Json.soundAll (maxDepth - 2) (m.moduleBytes.map fun b => .nat b.toNat) = true := by
    rw [Json.soundAll_eq_all, List.all_map, List.all_eq_true]
    exact fun b _ => Json.Number.isSome_double?_ofNat (Nat.lt_trans b.toNat_lt (by decide))
  have hsound : (toJson m).sound maxDepth =
      (true && Json.soundAll (maxDepth - 2) (m.moduleBytes.map fun b => .nat b.toNat) && true) := rfl
  rw [hsound, hitems]
  rfl

theorem roundTrips_control :
    RoundTrips ControlMessage (fun _ => True) (fun j => j.sound maxDepth = true) := by
  refine .of_ofJson (fun m => ?_) sound_control ?_ fun _ _ _ => trivial
  · refine .object (List.forall_mem_singleton.mpr rfl) (List.forall_mem_singleton.mpr (.array fun j hj => ?_))
    obtain ⟨b, -, rfl⟩ := List.mem_map.mp hj
    exact .nat b.toNat
  · intro m _ j hj hsound
    obtain ⟨more, rfl, hextends⟩ := Extends.of_rearranged hj
    dsimp only [ofJson]
    rw [if_pos hsound, moduleBytes?_of_extends hextends]

/-- Control messages, render messages, states, counters, spans and configurations survive the wire. The members
that a control message does not know are read too, so that their numbers must be finite and they must not nest
too deep; the others are not looked at. -/
theorem wire_round_trip :
    RoundTrips ControlMessage (fun _ => True) (fun j => j.sound maxDepth = true) ∧
    RoundTrips RenderMessage (fun _ => True) (fun _ => True) ∧
    RoundTrips RenderState (fun _ => True) (fun _ => True) ∧
    RoundTrips RenderStats (fun s => ∀ n ∈ statsValues s, n < UInt64.size) (fun _ => True) ∧
    RoundTrips Span (fun s => s.start < UInt64.size ∧ s.stop < UInt64.size) (fun _ => True) ∧
    RoundTrips Config (fun _ => True) (fun _ => True) :=
  ⟨roundTrips_control, roundTrips_message, roundTrips_state, roundTrips_stats, roundTrips_span,
    roundTrips_config⟩

example : decode Span
    " \x7b \"x\" : [ 1.5e2 , \"\\u0041\" ],\n\"end\":18446744073709551615, \"start\" :7\x7d\t" =
      .ok ⟨7, 18446744073709551615⟩ := by
  decide +kernel

end Wire

end SampleStream
