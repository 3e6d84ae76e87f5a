import ContainerCommand.Proofs.Template.Grammar
import ContainerCommand.Template.Slot

/-! Filling a template by cutting its words.

A byte below 128 is a character of its own (`eq_of_mem_utf8EncodeChar`), so that scanning bytes finds
the placeholders that reading characters finds, whatever stands around them (`scan_of_split?`). The
slot of a template that was read then lies between characters. -/
namespace ContainerCommand.Template

open String (utf8EncodeChar)

variable {cs pre post : List Char} {k : Conversion} {place : Nat}

/-! ### Bytes -/

/-- The bytes of characters. -/
def bytes (cs : List Char) : List UInt8 :=
  cs.flatMap utf8EncodeChar

theorem bytes_cons (c : Char) (cs : List Char) : bytes (c :: cs) = utf8EncodeChar c ++ bytes cs :=
  List.flatMap_cons

/-- A byte below 128 belongs to one character only: those of a longer character are all above. -/
theorem toNat_eq_of_mem_utf8EncodeChar {c : Char} {b : UInt8} (hb : b.toNat < 128)
    (h : b ∈ utf8EncodeChar c) : c.toNat = b.toNat := by
  show c.val.toNat = b.toNat
  simp only [utf8EncodeChar] at h
  split_ifs at h <;>
    simp only [List.mem_cons, List.not_mem_nil, or_false, ← UInt8.toNat_inj,
      UInt8.toNat_ofNat'] at h <;>
    omega

theorem eq_of_mem_utf8EncodeChar {c d : Char} {b : UInt8} (hd : d.toNat < 128)
    (hb : b.toNat = d.toNat) (h : b ∈ utf8EncodeChar c) : c = d :=
  Char.toNat_inj.mp ((toNat_eq_of_mem_utf8EncodeChar (hb ▸ hd) h).trans hb)

/-! ### Scanning -/

theorem scan_cons_of_ne {b : UInt8} (hb : b ≠ 0x25) (rest : List UInt8) :
    scan place (b :: rest) = scan (place + 1) rest := by
  cases rest with
  | nil => rfl
  | cons a rest => rw [scan, if_neg hb]

theorem scan_append_of_not_mem {front : List UInt8} (hfront : (0x25 : UInt8) ∉ front)
    (rest : List UInt8) : scan place (front ++ rest) = scan (place + front.length) rest := by
  induction front generalizing place with
  | nil => rfl
  | cons b front ih =>
    rw [List.mem_cons, not_or] at hfront
    rw [List.cons_append, scan_cons_of_ne (Ne.symm hfront.1), ih hfront.2, List.length_cons,
      Nat.add_assoc, Nat.add_comm 1]

/-- A byte asks for a conversion only if its character does. -/
theorem ofByte?_of_mem_utf8EncodeChar {c : Char} {b : UInt8} (hc : Conversion.ofLetter? c = none)
    (h : b ∈ utf8EncodeChar c) : Conversion.ofByte? b = none := by
  rw [← Option.not_isSome_iff_eq_none, isSome_ofLetter?_iff] at hc
  unfold Conversion.ofByte?
  rw [if_neg, if_neg, if_neg]
  · rintro rfl
    exact hc (.inr (.inr (eq_of_mem_utf8EncodeChar (by decide) rfl h)))
  · rintro rfl
    exact hc (.inr (.inl (eq_of_mem_utf8EncodeChar (by decide) rfl h)))
  · rintro rfl
    exact hc (.inl (eq_of_mem_utf8EncodeChar (by decide) rfl h))

/-- A character that begins no placeholder is skipped with all of its bytes. -/
theorem scan_bytes_cons {c d : Char}
    (h : (if c = '%' then Conversion.ofLetter? d else none) = none) (rest : List Char) :
    scan place (bytes (c :: d :: rest)) =
      scan (place + (utf8EncodeChar c).length) (bytes (d :: rest)) := by
  rw [bytes_cons]
  by_cases hc : c = '%'
  · rw [if_pos hc] at h
    obtain ⟨b, others, hb⟩ := List.exists_cons_of_ne_nil (String.utf8EncodeChar_ne_nil (c := d))
    have hnone : Conversion.ofByte? b = none :=
      ofByte?_of_mem_utf8EncodeChar h (hb ▸ List.mem_cons_self ..)
    have hpercent : utf8EncodeChar c = [0x25] := by
      rw [hc]
      rfl
    rw [hpercent, bytes_cons, hb, List.singleton_append, List.cons_append, scan, if_pos rfl, hnone]
    rfl
  · exact scan_append_of_not_mem
      (fun hmem => hc (eq_of_mem_utf8EncodeChar (by decide) rfl hmem)) _

theorem scan_of_split?_eq_none (h : split? cs = none) : scan place (bytes cs) = [] := by
  fun_induction split? cs generalizing place with
  | case1 => rfl
  | case2 c =>
    by_cases hc : c = '%'
    · rw [hc]
      rfl
    · rw [bytes_cons]
      exact scan_append_of_not_mem
        (fun hmem => hc (eq_of_mem_utf8EncodeChar (by decide) rfl hmem)) _
  | case3 c d rest k hk => cases h
  | case4 c d rest hk ih =>
    rw [scan_bytes_cons hk]
    exact ih (Option.map_eq_none_iff.mp h)

/-- **Scanning bytes finds the first placeholder that is there**, behind the bytes in front of it. -/
theorem scan_of_split? (h : split? cs = some (pre, k, post)) :
    scan place (bytes cs) =
      (place + (bytes pre).length, k) :: scan (place + (bytes pre).length + 2) (bytes post) := by
  fun_induction split? cs generalizing place pre k post with
  | case1 => cases h
  | case2 => cases h
  | case3 c d rest k' hk =>
    cases h
    split at hk
    · subst c
      rw [← Conversion.letter_of_ofLetter? hk]
      cases k' <;> rfl
    · cases hk
  | case4 c d rest hk ih =>
    obtain ⟨⟨pre', k', post'⟩, hs, heq⟩ := Option.map_eq_some_iff.mp h
    cases heq
    rw [scan_bytes_cons hk, ih hs, bytes_cons, List.length_append]
    simp only [Nat.add_assoc]

/-! ### The slot of words that are cut open -/

theorem encode_ofList (cs : List Char) : Text.encode (String.ofList cs) = bytes cs := by
  rw [Text.encode, String.toList_ofList]
  rfl

theorem utf8ByteSize_ofList (cs : List Char) :
    (String.ofList cs).utf8ByteSize = (bytes cs).length := by
  rw [← String.size_toByteArray, String.toByteArray_ofList, List.utf8Encode,
    List.size_toByteArray]
  rfl

/-- The slot of words that are cut open, the first of which has the number `n`. -/
def Body.slot? (n : Nat) : Body → Option Slot
  | .literal _ => none
  | .slotted front pre k _ _ => some ⟨n + front.length, pre.utf8ByteSize, pre.utf8ByteSize + 2, k⟩

variable {ws : List (List Char)} {n : Nat}

theorem slots_eq_nil (h : ws.flatMap placeholders = []) : slots n (ws.map String.ofList) = [] := by
  induction ws generalizing n with
  | nil => rfl
  | cons word ws ih =>
    rw [List.flatMap_cons, List.append_eq_nil_iff] at h
    rw [List.map_cons, slots, encode_ofList,
      scan_of_split?_eq_none ((split?_eq_none_iff word).mpr h.1), ih h.2]
    rfl

/-- **Where words have one placeholder, scanning them finds it, and where they are cut open it is.** -/
theorem slots_map_ofList (h : (ws.flatMap placeholders).length ≤ 1) :
    slots n (ws.map String.ofList) = ((Body.ofWords ws).slot? n).toList := by
  fun_induction Body.ofWords ws generalizing n with
  | case1 => rfl
  | case2 word rest pre k post hcut =>
    rw [List.flatMap_cons, placeholders_of_split? hcut, List.cons_append, List.length_cons] at h
    have hnone : placeholders post ++ rest.flatMap placeholders = [] :=
      List.length_eq_zero_iff.mp (by omega)
    obtain ⟨hpost, hrest⟩ := List.append_eq_nil_iff.mp hnone
    rw [List.map_cons, slots, encode_ofList, scan_of_split? hcut,
      scan_of_split?_eq_none ((split?_eq_none_iff post).mpr hpost), slots_eq_nil hrest]
    simp [Body.slot?, utf8ByteSize_ofList]
  | case3 word rest hcut words hrest ih =>
    rw [List.flatMap_cons, (split?_eq_none_iff word).mp hcut, List.nil_append] at h
    rw [List.map_cons, slots, encode_ofList, scan_of_split?_eq_none hcut, ih h, hrest]
    rfl
  | case4 word rest hcut front pre k post back hrest ih =>
    rw [List.flatMap_cons, (split?_eq_none_iff word).mp hcut, List.nil_append] at h
    rw [List.map_cons, slots, encode_ofList, scan_of_split?_eq_none hcut, ih h, hrest]
    simp [Body.slot?, Nat.add_assoc, Nat.add_comm 1]

/-! ### Cutting -/

theorem isValid_append (s t : String) : String.Pos.Raw.IsValid (s ++ t) ⟨s.utf8ByteSize⟩ :=
  String.Pos.Raw.isValid_iff_exists_append.mpr ⟨s, t, rfl, rfl⟩

theorem upTo?_append (s t : String) : upTo? (s ++ t) s.utf8ByteSize = some s := by
  rw [upTo?, dif_pos (isValid_append s t)]
  exact congrArg some (String.Pos.Splits.eq_left (String.Pos.splits _) ⟨rfl, rfl⟩)

theorem from?_append (s t : String) : from? (s ++ t) s.utf8ByteSize = some t := by
  rw [from?, dif_pos (isValid_append s t)]
  exact congrArg some (String.Pos.Splits.eq_right (String.Pos.splits _) ⟨rfl, rfl⟩)

/-- The slot's places cut the placeholder out of a word, between the texts on its two sides. -/
structure Slot.Cuts (slot : Slot) (word pre post : String) : Prop where
  word : word = pre ++ String.ofList slot.conversion.placeholder ++ post
  start : slot.start = pre.utf8ByteSize
  stop : slot.stop = (pre ++ String.ofList slot.conversion.placeholder).utf8ByteSize

/-- The slot's places lie in a word and between its characters. -/
structure Slot.Fits (slot : Slot) (word : String) : Prop where
  lt : slot.start < slot.stop
  start : String.Pos.Raw.IsValid word ⟨slot.start⟩
  stop : String.Pos.Raw.IsValid word ⟨slot.stop⟩

namespace Slot.Cuts

variable {slot : Slot} {word pre post text : String} {words : List String}

theorem fits (h : slot.Cuts word pre post) : slot.Fits word := by
  obtain ⟨rfl, hstart, hstop⟩ := h
  constructor
  · rw [hstart, hstop, String.utf8ByteSize_append]
    cases slot.conversion <;> exact Nat.lt_add_of_pos_right (by decide)
  · rw [hstart, String.append_assoc]
    exact isValid_append _ _
  · rw [hstop]
    exact isValid_append _ _

/-- What stands on the two sides of the placeholder is put on the two sides of the text. -/
theorem fill?_eq (h : slot.Cuts word pre post) (hword : words[slot.word]? = some word) :
    slot.fill? words text = some (words.set slot.word (pre ++ text ++ post)) := by
  obtain ⟨rfl, hstart, hstop⟩ := h
  have hfront : upTo? (pre ++ String.ofList slot.conversion.placeholder ++ post) slot.start =
      some pre := by
    rw [hstart, String.append_assoc]
    exact upTo?_append _ _
  have hback : from? (pre ++ String.ofList slot.conversion.placeholder ++ post) slot.stop =
      some post := by
    rw [hstop]
    exact from?_append _ _
  simp [fill?, hword, hfront, hback]

end Slot.Cuts

namespace Body

variable {body : Body} {slot : Slot}

/-- Filling words that are cut open sets the word that has the slot. -/
theorem exists_cuts (h : body.slot? 0 = some slot) :
    body.conversion? = some slot.conversion ∧ ∃ word pre post,
      body.words[slot.word]? = some word ∧ slot.Cuts word pre post ∧
        ∀ text, body.fill text = body.words.set slot.word (pre ++ text ++ post) := by
  cases body with
  | literal words => cases h
  | slotted front pre k post back =>
    rw [slot?, Nat.zero_add] at h
    cases h
    refine ⟨rfl, pre ++ String.ofList k.placeholder ++ post, pre, post, ?_, ⟨rfl, rfl, ?_⟩,
      fun text => ?_⟩
    · show (front ++ _ :: back)[front.length]? = _
      rw [List.getElem?_append_right (Nat.le_refl _), Nat.sub_self, List.getElem?_cons_zero]
      rfl
    · rw [String.utf8ByteSize_append]
      cases k <;> rfl
    · show _ = (front ++ _ :: back).set front.length _
      rw [List.set_append_right _ _ (Nat.le_refl _), Nat.sub_self, List.set_cons_zero]
      rfl

theorem conversion?_of_slot?_eq_none (h : body.slot? 0 = none) : body.conversion? = none := by
  cases body with
  | literal words => rfl
  | slotted front pre k post back => cases h

end Body

namespace Argument

variable {raw name : String} {value : Value} {t : Argument} {slot : Slot}

theorem slots_words_of_parse (h : parse raw = .ok t) :
    slots 0 t.words = (t.body.slot? 0).toList := by
  obtain ⟨body, isRepeated, words, hreading⟩ := exists_reading raw
  obtain ⟨⟨_, hone, _⟩, rfl⟩ := (parse_eq_ok_iff hreading).mp h
  rw [length_occurrences, placeholders_eq_flatMap hreading.words] at hone
  rw [Argument.words, Body.words_ofWords]
  exact slots_map_ofList hone

/-- The slot that scanning finds is where the template is cut open. -/
theorem slot?_of_parse (h : parse raw = .ok t) : t.slot? = t.body.slot? 0 := by
  rw [slot?, slots_words_of_parse h]
  cases t.body.slot? 0 <;> rfl

theorem fill_of_slot?_eq_none (h : parse raw = .ok t) (hslot : t.slot? = none) :
    t.fill name value = .ok t.words := by
  rw [slot?_of_parse h] at hslot
  rw [fill, Body.conversion?_of_slot?_eq_none hslot]

/-- **Filling a template that was read cuts no character**, and gives what filling it cut open
gives. -/
theorem fillSlot?_of_parse (h : parse raw = .ok t) :
    t.fillSlot? name value = some (t.fill name value) := by
  cases hslot : t.slot? with
  | none => simp only [fillSlot?, hslot, fill_of_slot?_eq_none h hslot]
  | some slot =>
    have hbody := slot?_of_parse h ▸ hslot
    obtain ⟨hconversion, word, pre, post, hword, hcuts, hfill⟩ := Body.exists_cuts hbody
    cases hconvert : convert slot.conversion value with
    | error fault => simp only [fillSlot?, hslot, fill, hconversion, hconvert]
    | ok text =>
      have hfilled : slot.fill? t.words text = _ := hcuts.fill?_eq hword
      simp only [fillSlot?, hslot, fill, hconversion, hconvert, hfilled, hfill, Option.map_some]
      rfl

/-- **A value changes no word but the one with the placeholder.** A template that was read has at most
one placeholder. Its slot lies in a word and between that word's characters, whatever bytes they have,
so that filling it never cuts a character. If a value can be written, there are as many words as
before; the one with the slot has the value's text between what stands on the two sides of the
placeholder, whatever the text holds, and the others are as they were. -/
theorem fill_of_parse (h : parse raw = .ok t) (name : String) (value : Value) :
    slots 0 t.words = t.slot?.toList ∧ t.hasPlaceholder = t.slot?.isSome ∧
      t.fillSlot? name value = some (t.fill name value) ∧
      (t.slot? = none → t.fill name value = .ok t.words) ∧
      ∀ slot, t.slot? = some slot → ∃ word pre post,
        t.words[slot.word]? = some word ∧ slot.Cuts word pre post ∧ slot.Fits word ∧
          ∀ words, t.fill name value = .ok words → ∃ text,
            convert slot.conversion value = .ok text ∧ words.length = t.words.length ∧
              words[slot.word]? = some (pre ++ text ++ post) ∧
              ∀ i, i ≠ slot.word → words[i]? = t.words[i]? := by
  refine ⟨?_, ?_, fillSlot?_of_parse h, fill_of_slot?_eq_none h, fun slot hslot => ?_⟩
  · rw [slots_words_of_parse h, slot?_of_parse h]
  · rw [hasPlaceholder, slot?_of_parse h]
    cases hslot : t.body.slot? 0 with
    | none => rw [Body.conversion?_of_slot?_eq_none hslot]; rfl
    | some slot => rw [(Body.exists_cuts hslot).1]; rfl
  · rw [slot?_of_parse h] at hslot
    obtain ⟨hconversion, word, pre, post, hword, hcuts, hfill⟩ := Body.exists_cuts hslot
    refine ⟨word, pre, post, hword, hcuts, hcuts.fits, fun words hwords => ?_⟩
    simp only [fill, hconversion] at hwords
    cases hconvert : convert slot.conversion value with
    | error fault => rw [hconvert] at hwords; cases hwords
    | ok text =>
      rw [hconvert] at hwords
      cases hwords
      have hlt : slot.word < t.body.words.length := (List.getElem?_eq_some_iff.mp hword).1
      rw [hfill]
      refine ⟨text, rfl, List.length_set, List.getElem?_set_self hlt, fun i hi => ?_⟩
      exact List.getElem?_set_ne (Ne.symm hi)

/-- Characters of two bytes stand on both sides of the placeholder, and the value holds blanks, the mark
of a redirection and what looks like a placeholder. -/
theorem fill_of_parse_multibyte :
    let t : Argument := ⟨"--größe=«%s» µ", .slotted [] "--größe=«" .text "»" ["µ"], false⟩
    let value : Value := .text "a  > %s"
    let slot : Slot := ⟨0, 12, 14, .text⟩
    let filled : List String := ["--größe=«a  > %s»", "µ"]
    parse "--größe=«%s» µ" = .ok t ∧ t.slot? = some slot ∧ slots 0 t.words = [slot] ∧
      t.fillSlot? "size" value = some (.ok filled) ∧
      ∃ word pre post, t.words[0]? = some word ∧ slot.Cuts word pre post ∧ slot.Fits word ∧
        ∃ text, convert .text value = .ok text ∧ filled.length = t.words.length ∧
          filled[0]? = some (pre ++ text ++ post) ∧ ∀ i, i ≠ 0 → filled[i]? = t.words[i]? := by
  intro t value slot filled
  have h : parse "--größe=«%s» µ" = .ok t := by decide +kernel
  have hslot : t.slot? = some slot := by decide +kernel
  have hfilled : t.fill "size" value = .ok filled := by decide +kernel
  obtain ⟨hslots, _, hfill, _, hword⟩ := fill_of_parse h "size" value
  rw [hslot] at hslots
  rw [hfilled] at hfill
  obtain ⟨word, pre, post, hfound, hcuts, hfits, hvalue⟩ := hword slot hslot
  exact ⟨h, hslot, hslots, hfill, word, pre, post, hfound, hcuts, hfits, hvalue filled hfilled⟩

end Argument

end ContainerCommand.Template
