import Mathlib.Data.List.Basic
import Mathlib.Tactic.Common
import Mathlib.Tactic.Ring

/-!
The descriptors of the device (`usbd_desc.c`, `usbhelper.h`, `ecmhelper.h`) and the functions that
make its strings.

* `deviceDesc`, `cfgFsDesc`, `langIdDesc`: the constant descriptors, byte by byte;
* `usbdGetString`: a string of ASCII characters as a string descriptor, with its 8-bit index into
  the 256 bytes of `USBD_StrDesc`;
* `intToUnicode`, `serialStrDescriptor`: the address of the network card, as hexadecimal digits;
* `hostString`, `hostHex`: what a host reads out of a string descriptor;
* `getString_iff`: it reads the string exactly up to 126 characters;
* `serialStr_host`: the address it reads is locally administered, and tells devices apart.
-/

namespace Stm32Ecm

/-! ### The constant descriptors -/

/-- `USB_UINT16`: `LOBYTE` and `HIBYTE`. -/
def usbUint16 (x : ℕ) : List UInt8 := [UInt8.ofNat x, UInt8.ofNat (x / 256)]

/-- `hUSBDDeviceDesc`. -/
def deviceDesc : List UInt8 :=
  [18, 1] ++ usbUint16 0x0200 ++ [0, 0, 0, 64] ++ usbUint16 0x6666 ++ usbUint16 0x8887 ++
    usbUint16 0x0200 ++ [1, 2, 3, 1]

/-- `ECM_DESCRIPTOR`, with the values of `USBD_ECM_CfgFSDesc`. -/
def ecmDescriptor : List UInt8 :=
  [9, 4, 0, 0, 1, 2, 6, 0, 0] ++ ([5, 0x24, 0] ++ usbUint16 0x0120) ++ [5, 0x24, 6, 0, 1] ++
    ([13, 0x24, 0x0F, 3, 0, 0, 0, 0] ++ usbUint16 1514 ++ usbUint16 0 ++ [0]) ++
    ([7, 5, 0x81, 3] ++ usbUint16 64 ++ [0xFF]) ++ [9, 4, 1, 0, 2, 0x0A, 0, 0, 0] ++
    ([7, 5, 0x82, 2] ++ usbUint16 64 ++ [0]) ++ ([7, 5, 0x03, 2] ++ usbUint16 64 ++ [0])

/-- `USBD_ECM_CfgFSDesc`. -/
def cfgFsDesc : List UInt8 :=
  [9, 2] ++ usbUint16 (9 + ecmDescriptor.length) ++ [2, 1, 0, 0x80, 50] ++ ecmDescriptor

/-- `USBD_LangIDDesc`. -/
def langIdDesc : List UInt8 := [4, 3] ++ usbUint16 0x409

/-! ### Strings -/

/-- `USBD_GetLen`: the length has 8 bits. -/
def usbdGetLen (buf : List UInt8) : UInt8 := buf.foldl (fun len _ => len + 1) 0

/-- The loop of `USBD_GetString`: two bytes for each character, at an index of 8 bits. -/
def getStringLoop : List UInt8 → UInt8 → List UInt8 → List UInt8
  | [], _, unicode => unicode
  | c :: desc, idx, unicode =>
      getStringLoop desc (idx + 2) ((unicode.set idx.toNat c).set (idx + 1).toNat 0)

/-- `USBD_GetString`, on the characters of the string: the buffer and `*len`. -/
def usbdGetString (desc unicode : List UInt8) : List UInt8 × ℕ :=
  let len := (usbdGetLen desc).toNat * 2 + 2
  (getStringLoop desc 2 ((unicode.set 0 (UInt8.ofNat len)).set 1 3), len)

/-- A hexadecimal digit, as `IntToUnicode` writes it. -/
def hexDigit (n : ℕ) : UInt8 := UInt8.ofNat (if n < 10 then 48 + n else 55 + n)

/-- `IntToUnicode`: `len` digits, the highest first. -/
def intToUnicode : ℕ → UInt32 → List UInt8
  | 0, _ => []
  | len + 1, value => [hexDigit (value.toNat / 2 ^ 28), 0] ++ intToUnicode len (value <<< 4)

/-- `USBD_VCP_SerialStrDescriptor`: the bytes written to the beginning of `USBD_StrDesc`. -/
def serialStrDescriptor (deviceserial : UInt32) : List UInt8 :=
  [26, 3] ++ intToUnicode 4 0x02020000 ++ intToUnicode 8 deviceserial

/-! ### The host -/

/-- Every other byte: the low bytes of the 16-bit characters. -/
def lowBytes : List UInt8 → List UInt8
  | [] => []
  | [_] => []
  | c :: _ :: l => c :: lowBytes l

/-- The characters a host reads out of a string descriptor. -/
def hostString (d : List UInt8) : List UInt8 := lowBytes (d.drop 2)

/-- A string descriptor: its first byte is its length, its second the type. -/
def IsStringDescriptor (d : List UInt8) : Prop :=
  (d.getD 0 0).toNat = d.length ∧ d.getD 1 0 = 3

/-- The value of a hexadecimal digit. -/
def hexValue (c : UInt8) : ℕ := if c.toNat < 65 then c.toNat - 48 else c.toNat - 55

/-- The number a host reads out of hexadecimal digits. -/
def hostHex (l : List UInt8) : ℕ := l.foldl (fun v c => 16 * v + hexValue c) 0

/-! ### A string of ASCII characters -/

section Strings

variable {desc unicode : List UInt8} {idx c : UInt8}

/-- `USBD_GetLen` counts modulo 256. -/
lemma usbdGetLen_toNat : (usbdGetLen desc).toNat = desc.length % 256 := by
  have hcount : ∀ (l : List UInt8) (k : UInt8),
      (l.foldl (fun len _ => len + 1) k).toNat = (k.toNat + l.length) % 256 := fun l => by
    induction l with
    | nil =>
        intro k
        have hk := k.toNat_lt
        simp only [List.foldl_nil, List.length_nil]
        omega
    | cons c l ih =>
        intro k
        rw [List.foldl_cons, ih, UInt8.toNat_add, List.length_cons]
        simp only [UInt8.reduceToNat]
        omega
  rw [usbdGetLen, hcount]
  simp

/-- One character, where it fits. -/
lemma set_char (h : idx.toNat + 2 ≤ unicode.length) (h256 : unicode.length ≤ 256) :
    (unicode.set idx.toNat c).set (idx + 1).toNat 0 =
      unicode.take idx.toNat ++ [c, 0] ++ unicode.drop (idx.toNat + 2) := by
  have hnext : (idx + 1).toNat = idx.toNat + 1 := by
    rw [UInt8.toNat_add]
    simp only [UInt8.reduceToNat]
    omega
  have hsplit : unicode = unicode.take idx.toNat ++ unicode.drop idx.toNat :=
    (List.take_append_drop _ _).symm
  have hdrop : unicode.drop idx.toNat =
      unicode[idx.toNat] :: unicode[idx.toNat + 1] :: unicode.drop (idx.toNat + 2) := by
    rw [List.drop_eq_getElem_cons (by omega), List.drop_eq_getElem_cons (by omega)]
  have hlen : (unicode.take idx.toNat).length = idx.toNat := by
    rw [List.length_take, Nat.min_eq_left (by omega)]
  rw [hnext]
  conv_lhs => rw [hsplit, hdrop]
  rw [List.set_append_right _ _ (by omega), List.set_append_right _ _ (by omega), hlen,
    Nat.sub_self, Nat.add_sub_cancel_left, List.append_assoc]
  rfl

/-- The whole string, where it fits. -/
lemma getStringLoop_of_le (h : idx.toNat + 2 * desc.length ≤ unicode.length)
    (h256 : unicode.length ≤ 256) :
    getStringLoop desc idx unicode =
      unicode.take idx.toNat ++ desc.flatMap (fun c => [c, 0]) ++
        unicode.drop (idx.toNat + 2 * desc.length) := by
  induction desc generalizing idx unicode with
  | nil => simp [getStringLoop]
  | cons c desc ih =>
      rw [List.length_cons] at h
      rw [getStringLoop, set_char (by omega) h256, List.flatMap_cons, List.length_cons]
      have hlen : (unicode.take idx.toNat ++ [c, 0]).length = idx.toNat + 2 := by
        rw [List.length_append, List.length_take, Nat.min_eq_left (by omega)]
        rfl
      generalize hfront : unicode.take idx.toNat ++ [c, 0] = front at hlen ⊢
      cases desc with
      | nil =>
          rw [getStringLoop, List.flatMap_nil, List.append_nil, ← hfront]
          rfl
      | cons d desc =>
          rw [List.length_cons] at h ih ⊢
          have hnext : (idx + 2).toNat = idx.toNat + 2 := by
            rw [UInt8.toNat_add]
            simp only [UInt8.reduceToNat]
            omega
          have hbuf : (front ++ unicode.drop (idx.toNat + 2)).length = unicode.length := by
            rw [List.length_append, hlen, List.length_drop]
            omega
          rw [ih (by omega) (by omega), hnext, ← hlen, List.take_left, ← List.drop_drop,
            List.drop_left, List.drop_drop, hlen, ← hfront]
          simp only [List.append_assoc]
          congr 4
          omega

/-- Once the index has wrapped around, the second byte is zero. -/
lemma getStringLoop_one (heven : idx.toNat % 2 = 0)
    (h : (256 - idx.toNat) % 256 / 2 < desc.length ∨ unicode.getD 1 0 = 0) :
    (getStringLoop desc idx unicode).getD 1 0 = 0 := by
  induction desc generalizing idx unicode with
  | nil =>
      rcases h with h | h
      · simp at h
      · exact h
  | cons c desc ih =>
      have hlt := idx.toNat_lt
      have hone : (idx + 1).toNat = idx.toNat + 1 := by
        rw [UInt8.toNat_add]
        simp only [UInt8.reduceToNat]
        omega
      have htwo : (idx + 2).toNat = (idx.toNat + 2) % 256 := UInt8.toNat_add idx 2
      have hset : ((unicode.set idx.toNat c).set (idx + 1).toNat 0).getD 1 0 =
          if idx.toNat = 0 then 0 else unicode.getD 1 0 := by
        rw [hone, List.getD_eq_getElem?_getD, List.getD_eq_getElem?_getD, List.getElem?_set]
        split_ifs with h1 h2 h0 h0
        · rfl
        · omega
        · rfl
        · omega
        · omega
        · rw [List.getElem?_set_ne (by omega)]
      rw [getStringLoop]
      refine ih (by omega) ?_
      rw [hset, htwo]
      rw [List.length_cons] at h
      split_ifs with h0
      · exact Or.inr rfl
      · rcases h with h | h
        · left
          omega
        · exact Or.inr h

lemma length_getStringLoop : (getStringLoop desc idx unicode).length = unicode.length := by
  induction desc generalizing idx unicode with
  | nil => rfl
  | cons c desc ih => rw [getStringLoop, ih, List.length_set, List.length_set]

lemma lowBytes_flatMap : lowBytes (desc.flatMap fun c => [c, 0]) = desc := by
  induction desc with
  | nil => rfl
  | cons c desc ih =>
      rw [List.flatMap_cons]
      change c :: lowBytes (desc.flatMap fun c => [c, 0]) = c :: desc
      rw [ih]

/-- The descriptor of a string that fits. -/
lemma usbdGetString_of_le (h : desc.length ≤ 126) (hbuf : unicode.length = 256) :
    (usbdGetString desc unicode).1.take (usbdGetString desc unicode).2 =
      UInt8.ofNat (desc.length * 2 + 2) :: 3 :: desc.flatMap fun c => [c, 0] := by
  have hlen : (usbdGetLen desc).toNat = desc.length := by
    rw [usbdGetLen_toNat, Nat.mod_eq_of_lt (by omega)]
  have htwo : (2 : UInt8).toNat = 2 := rfl
  have hflat : (desc.flatMap fun c => [c, (0 : UInt8)]).length = desc.length * 2 := by
    simp [List.length_flatMap]
  rw [usbdGetString, hlen]
  dsimp only
  rw [getStringLoop_of_le (by rw [List.length_set, List.length_set]; omega)
    (by rw [List.length_set, List.length_set]; omega), htwo]
  match unicode, hbuf with
  | a :: b :: rest, _ =>
      rw [List.set_cons_zero, List.set_cons_succ, List.set_cons_zero, List.take_succ_cons,
        List.take_succ_cons, List.take_zero]
      change _ :: _ :: List.take (desc.length * 2) (_ ++ _) = _
      rw [← hflat]
      exact congrArg (fun l => _ :: _ :: l) List.take_left

/-- **A string comes out as it is exactly up to 126 characters.** -/
theorem getString_iff (hbuf : unicode.length = 256) :
    (IsStringDescriptor ((usbdGetString desc unicode).1.take (usbdGetString desc unicode).2) ∧
        hostString ((usbdGetString desc unicode).1.take (usbdGetString desc unicode).2) = desc) ↔
      desc.length ≤ 126 := by
  constructor
  · rintro ⟨⟨hfirst, hsecond⟩, -⟩
    by_contra hlong
    have hlen : (usbdGetString desc unicode).2 = desc.length % 256 * 2 + 2 := by
      rw [usbdGetString, usbdGetLen_toNat]
    have hbuflen : (usbdGetString desc unicode).1.length = 256 := by
      rw [usbdGetString, length_getStringLoop, List.length_set, List.length_set, hbuf]
    by_cases h127 : desc.length = 127
    · -- the length does not fit its byte
      have htake : ((usbdGetString desc unicode).1.take (usbdGetString desc unicode).2).length =
          256 := by
        rw [List.length_take, hlen, hbuflen, h127]
        rfl
      have hlt := UInt8.toNat_lt
        (((usbdGetString desc unicode).1.take (usbdGetString desc unicode).2).getD 0 0)
      omega
    · -- the type has been overwritten
      have hone : ((usbdGetString desc unicode).1).getD 1 0 = 0 := by
        rw [usbdGetString]
        refine getStringLoop_one (by decide) (Or.inl ?_)
        have htwo : (2 : UInt8).toNat = 2 := rfl
        rw [htwo]
        omega
      rw [List.getD_eq_getElem?_getD, List.getElem?_take_of_lt (by omega),
        ← List.getD_eq_getElem?_getD, hone] at hsecond
      exact absurd hsecond (by decide)
  · intro h
    rw [usbdGetString_of_le h hbuf]
    refine ⟨⟨?_, rfl⟩, ?_⟩
    · have hflat : (desc.flatMap fun c => [c, (0 : UInt8)]).length = desc.length * 2 := by
        simp [List.length_flatMap]
      rw [List.getD_cons_zero, UInt8.toNat_ofNat', List.length_cons, List.length_cons, hflat]
      omega
    · exact lowBytes_flatMap

/-- The string of the manufacturer. -/
theorem getString_iff_acme :
    (IsStringDescriptor ((usbdGetString [65, 99, 109, 101] (List.replicate 256 0)).1.take
        (usbdGetString [65, 99, 109, 101] (List.replicate 256 0)).2) ∧
      hostString ((usbdGetString [65, 99, 109, 101] (List.replicate 256 0)).1.take
        (usbdGetString [65, 99, 109, 101] (List.replicate 256 0)).2) = [65, 99, 109, 101]) ↔
      [65, 99, 109, 101].length ≤ 126 :=
  getString_iff List.length_replicate

end Strings

/-! ### The address of the network card -/

section Serial

variable {value : UInt32} {len : ℕ}

lemma hexValue_hexDigit {n : ℕ} (hn : n < 16) : hexValue (hexDigit n) = n := by
  rw [hexDigit]
  split_ifs with h10
  · rw [hexValue, UInt8.toNat_ofNat', if_pos (by omega)]
    omega
  · rw [hexValue, UInt8.toNat_ofNat', if_neg (by omega)]
    omega

/-- The digits are the highest ones of the number. -/
lemma foldl_intToUnicode (hlen : len ≤ 8) (v : ℕ) :
    (lowBytes (intToUnicode len value)).foldl (fun v c => 16 * v + hexValue c) v =
      v * 2 ^ (4 * len) + value.toNat / 2 ^ (32 - 4 * len) := by
  induction len generalizing value v with
  | zero =>
      have hv := value.toNat_lt
      rw [Nat.div_eq_of_lt (by simpa using hv)]
      simp [intToUnicode, lowBytes]
  | succ len ih =>
      have hv : value.toNat < 2 ^ 32 := value.toNat_lt
      have hshift : (value <<< 4).toNat = value.toNat * 16 % 2 ^ 32 := by
        rw [UInt32.toNat_shiftLeft]
        simp [Nat.shiftLeft_eq]
      change (lowBytes (intToUnicode len (value <<< 4))).foldl _ (16 * v + hexValue _) = _
      rw [ih (by omega), hshift, hexValue_hexDigit (by omega)]
      obtain ⟨k, hk⟩ : ∃ k, 4 * len + k = 28 := ⟨28 - 4 * len, by omega⟩
      have hpow : 2 ^ 28 = 2 ^ k * 2 ^ (4 * len) := by rw [← pow_add, Nat.add_comm, hk]
      -- the digits behind the highest one
      have hrest : value.toNat * 16 % 2 ^ 32 / 2 ^ (32 - 4 * len) =
          value.toNat % 2 ^ 28 / 2 ^ k := by
        have hmod : value.toNat * 16 % 2 ^ 32 = value.toNat % 2 ^ 28 * 2 ^ 4 := by omega
        have hexp : 32 - 4 * len = k + 4 := by omega
        rw [hmod, hexp, pow_add, Nat.mul_div_mul_right _ _ (by decide)]
      have hwhole : value.toNat / 2 ^ k =
          value.toNat / 2 ^ 28 * 2 ^ (4 * len) + value.toNat % 2 ^ 28 / 2 ^ k := by
        conv_lhs => rw [← Nat.div_add_mod value.toNat (2 ^ 28)]
        conv_lhs => rw [hpow, Nat.mul_assoc, Nat.mul_add_div (Nat.two_pow_pos k)]
        rw [← hpow, Nat.mul_comm]
      have hexp : 32 - 4 * (len + 1) = k := by omega
      calc
        (16 * v + value.toNat / 2 ^ 28) * 2 ^ (4 * len) +
              value.toNat * 16 % 2 ^ 32 / 2 ^ (32 - 4 * len)
            = v * (2 ^ (4 * len) * 2 ^ 4) +
                (value.toNat / 2 ^ 28 * 2 ^ (4 * len) + value.toNat % 2 ^ 28 / 2 ^ k) := by
              rw [hrest, Nat.add_mul]
              ring
        _ = v * 2 ^ (4 * (len + 1)) + value.toNat / 2 ^ (32 - 4 * (len + 1)) := by
              rw [← hwhole, hexp, ← pow_add, Nat.mul_succ]

/-- A digit or a letter from `A` to `F`. -/
def IsHexDigit (c : UInt8) : Prop := 48 ≤ c.toNat ∧ c.toNat ≤ 57 ∨ 65 ≤ c.toNat ∧ c.toNat ≤ 70

lemma isHexDigit_hexDigit {n : ℕ} (hn : n < 16) : IsHexDigit (hexDigit n) := by
  rw [IsHexDigit, hexDigit, UInt8.toNat_ofNat']
  split_ifs <;> omega

lemma length_intToUnicode : (intToUnicode len value).length = 2 * len := by
  induction len generalizing value with
  | zero => rfl
  | succ len ih =>
      rw [intToUnicode, List.length_append, ih]
      simp only [List.length_cons, List.length_nil]
      omega

lemma lowBytes_intToUnicode :
    (lowBytes (intToUnicode len value)).length = len ∧
      ∀ c ∈ lowBytes (intToUnicode len value), IsHexDigit c := by
  induction len generalizing value with
  | zero => exact ⟨rfl, nofun⟩
  | succ len ih =>
      obtain ⟨hlen, hdigits⟩ := @ih (value <<< 4)
      have hv := value.toNat_lt
      constructor
      · exact congrArg Nat.succ hlen
      · exact List.forall_mem_cons.mpr ⟨isHexDigit_hexDigit (by omega), hdigits⟩

/-- The characters of the serial number. -/
lemma hostString_serial (deviceserial : UInt32) :
    hostString (serialStrDescriptor deviceserial) =
      lowBytes (intToUnicode 4 0x02020000) ++ lowBytes (intToUnicode 8 deviceserial) := rfl

/-- **The address of the network card**: for every device a host reads twelve hexadecimal digits,
the address `02:02` with the serial number behind it, which is locally administered and no group
address. -/
theorem serialStr_host (deviceserial : UInt32) :
    IsStringDescriptor (serialStrDescriptor deviceserial) ∧
      (hostString (serialStrDescriptor deviceserial)).length = 12 ∧
      (∀ c ∈ hostString (serialStrDescriptor deviceserial), IsHexDigit c) ∧
      hostHex (hostString (serialStrDescriptor deviceserial)) =
        0x0202 * 2 ^ 32 + deviceserial.toNat ∧
      hostHex (hostString (serialStrDescriptor deviceserial)) / 2 ^ 40 % 4 = 2 := by
  obtain ⟨hlen4, hdigits4⟩ := @lowBytes_intToUnicode 0x02020000 4
  obtain ⟨hlen8, hdigits8⟩ := @lowBytes_intToUnicode deviceserial 8
  have hhex : hostHex (hostString (serialStrDescriptor deviceserial)) =
      0x0202 * 2 ^ 32 + deviceserial.toNat := by
    have hupper : (0x02020000 : UInt32).toNat / 2 ^ (32 - 4 * 4) = 0x0202 := by decide
    rw [hostHex, hostString_serial, List.foldl_append, foldl_intToUnicode (by omega),
      foldl_intToUnicode (by omega), hupper]
    omega
  refine ⟨⟨?_, rfl⟩, ?_, ?_, hhex, ?_⟩
  · rw [serialStrDescriptor, List.length_append, List.length_append, length_intToUnicode,
      length_intToUnicode]
    rfl
  · rw [hostString_serial, List.length_append, hlen4, hlen8]
  · rw [hostString_serial]
    exact List.forall_mem_append.mpr ⟨hdigits4, hdigits8⟩
  · have hlt := deviceserial.toNat_lt
    rw [hhex]
    omega

end Serial

end Stm32Ecm
