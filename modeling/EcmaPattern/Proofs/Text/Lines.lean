import EcmaPattern.Text.Lines

namespace EcmaPattern.Lines

/-! # Lines that were written

Texts that each end in a line feed are read back as they were, unless one holds a line feed of its own
or ends in a carriage return. A byte below 80 is one of a text only where its character is.
-/

variable {line : String} {lines : List String} {c : Char} {b : UInt8} {bytes pending : List UInt8}

/-- The bytes of a text. -/
def bytesOf (text : String) : List UInt8 := text.toUTF8.toList

/-- The bytes of lines of which each ends in a line feed. -/
def write (lines : List String) : List UInt8 := bytesOf (String.join (lines.map (· ++ "\n")))

/-- A text that may stand on a line of its own, and is not changed by what ends a line. -/
def IsLine (line : String) : Prop :=
  '\n' ∉ line.toList ∧ line.toList.getLast? ≠ some '\r'

/-! ## Bytes -/

/-- The bytes of an array one by one are those that it holds. -/
theorem toList_eq_toList_data (array : ByteArray) : array.toList = array.data.toList := by
  have hloop (i : Nat) (sofar : List UInt8) :
      ByteArray.toList.loop array i sofar = sofar.reverse ++ array.data.toList.drop i := by
    fun_induction ByteArray.toList.loop array i sofar with
    | case1 i sofar hi ih =>
      have hlen : i < array.data.toList.length := by simpa using hi
      have hget : array.get! i = array.data.toList[i] := by
        simp only [ByteArray.get!, Array.getElem_toList]
        exact getElem!_pos array.data i (by simpa using hlen)
      rw [ih, List.drop_eq_getElem_cons hlen, List.reverse_cons, hget, List.append_assoc,
        List.singleton_append]
    | case2 i sofar hi =>
      have hlen : array.data.toList.length ≤ i := by simpa using hi
      rw [List.drop_eq_nil_of_le hlen, List.append_nil]
  rw [ByteArray.toList, hloop, List.reverse_nil, List.nil_append, List.drop_zero]

/-- The bytes of a text are those of its characters. -/
theorem bytesOf_eq (text : String) :
    bytesOf text = text.toList.flatMap String.utf8EncodeChar := by
  have hbytes : text.toUTF8 = (text.toList.flatMap String.utf8EncodeChar).toByteArray :=
    String.utf8Encode_toList.symm
  rw [bytesOf, hbytes, toList_eq_toList_data, List.toList_data_toByteArray]

/-- A byte that is an ASCII character is one of that character only. -/
theorem toNat_of_mem_utf8EncodeChar (hb : b.toNat < 0x80) (h : b ∈ String.utf8EncodeChar c) :
    c.toNat = b.toNat := by
  have hlarge {n : Nat} (hn : 0x80 ≤ n % 256) : b ≠ UInt8.ofNat n := by
    rintro rfl
    rw [UInt8.toNat_ofNat'] at hb
    omega
  rw [String.utf8EncodeChar] at h
  split at h
  next hc =>
    rw [List.mem_singleton] at h
    rw [h, UInt8.toNat_ofNat', Nat.mod_eq_of_lt (by omega)]
    rfl
  next =>
    -- each byte of a longer character has its first bit set
    exfalso
    split at h
    · simp only [List.mem_cons, List.not_mem_nil, or_false] at h
      rcases h with h | h <;> exact hlarge (by omega) h
    · split at h
      · simp only [List.mem_cons, List.not_mem_nil, or_false] at h
        rcases h with h | h | h <;> exact hlarge (by omega) h
      · simp only [List.mem_cons, List.not_mem_nil, or_false] at h
        rcases h with h | h | h | h <;> exact hlarge (by omega) h

theorem mem_of_mem_bytesOf (hb : b.toNat < 0x80) (h : b ∈ bytesOf line) :
    ∃ c ∈ line.toList, c.toNat = b.toNat := by
  rw [bytesOf_eq, List.mem_flatMap] at h
  rcases h with ⟨c, hc, hmem⟩
  exact ⟨c, hc, toNat_of_mem_utf8EncodeChar hb hmem⟩

theorem decode?_bytesOf (line : String) : decode? (bytesOf line) = some line := by
  have harray : (⟨(bytesOf line).toArray⟩ : ByteArray) = line.toByteArray := by
    rw [bytesOf, toList_eq_toList_data, Array.toArray_toList]
    rfl
  rw [decode?, harray, String.fromUTF8?, dif_pos line.isValidUTF8]
  rfl

theorem bytesOf_append (first second : String) :
    bytesOf (first ++ second) = bytesOf first ++ bytesOf second := by
  rw [bytesOf_eq, String.toList_append, List.flatMap_append, ← bytesOf_eq, ← bytesOf_eq]

theorem bytesOf_lineFeed : bytesOf "\n" = [lineFeed] := by
  rw [bytesOf_eq]
  decide +kernel

theorem write_cons (line : String) (lines : List String) :
    write (line :: lines) = bytesOf line ++ lineFeed :: write lines := by
  rw [write, List.map_cons, String.join_cons, bytesOf_append, bytesOf_append, bytesOf_lineFeed,
    List.append_assoc, List.singleton_append, ← write]

/-! ## Lines -/

namespace IsLine

theorem lineFeed_not_mem (h : IsLine line) : lineFeed ∉ bytesOf line := by
  intro hmem
  rcases mem_of_mem_bytesOf (by decide) hmem with ⟨c, hc, hvalue⟩
  obtain rfl : c = '\n' := Char.toNat_inj.1 hvalue
  exact h.1 hc

/-- No carriage return is taken off the end. -/
theorem withoutReturn_reverse (h : IsLine line) :
    withoutReturn (bytesOf line).reverse = (bytesOf line).reverse := by
  rw [bytesOf_eq]
  rcases List.eq_nil_or_concat line.toList with hnil | ⟨before, c, hlast⟩
  · rw [hnil]
    rfl
  · rw [List.concat_eq_append] at hlast
    have hc : c ≠ '\r' := by
      rintro rfl
      exact h.2 (by rw [hlast, List.getLast?_concat])
    rw [hlast, List.flatMap_append, List.flatMap_singleton, List.reverse_append]
    cases hbytes : (String.utf8EncodeChar c).reverse with
    | nil => exact absurd (List.reverse_eq_nil_iff.1 hbytes) String.utf8EncodeChar_ne_nil
    | cons b bytes =>
      have hmem : b ∈ String.utf8EncodeChar c :=
        List.mem_reverse.1 (hbytes ▸ List.mem_cons_self)
      have hreturn : b ≠ carriageReturn := by
        rintro rfl
        exact hc (Char.toNat_inj.1 (toNat_of_mem_utf8EncodeChar (by decide) hmem))
      rw [List.cons_append, withoutReturn, if_neg hreturn]

end IsLine

theorem splitFrom_append (h : lineFeed ∉ bytes) (rest : List UInt8) :
    splitFrom pending (bytes ++ lineFeed :: rest) =
      (withoutReturn (bytes.reverse ++ pending)).reverse :: split rest := by
  induction bytes generalizing pending with
  | nil =>
    rw [List.nil_append, splitFrom, if_pos rfl]
    rfl
  | cons b bytes ih =>
    rw [List.mem_cons, not_or] at h
    rw [List.cons_append, splitFrom, if_neg (Ne.symm h.1), ih h.2, List.reverse_cons,
      List.append_assoc, List.singleton_append]

/-- Written lines are split where they end. -/
theorem split_write (h : ∀ line ∈ lines, IsLine line) :
    split (write lines) = lines.map bytesOf := by
  induction lines with
  | nil => decide +kernel
  | cons line lines ih =>
    rw [List.forall_mem_cons] at h
    rw [write_cons, split, splitFrom_append h.1.lineFeed_not_mem, List.append_nil,
      h.1.withoutReturn_reverse, List.reverse_reverse, ih h.2, List.map_cons]

theorem decodeAll_bytesOf (lines : List String) : decodeAll (lines.map bytesOf) = (lines, true) := by
  induction lines with
  | nil => rfl
  | cons line lines ih => rw [List.map_cons, decodeAll, decode?_bytesOf, ih]

/-- Lines that were written are read back, all of them. -/
theorem decodeAll_split_write (h : ∀ line ∈ lines, IsLine line) :
    decodeAll (split (write lines)) = (lines, true) := by
  rw [split_write h, decodeAll_bytesOf]

end EcmaPattern.Lines
