import Stm32Ecm.Dhcp.Options

/-!
What `fill_options` writes, `find_dhcp_option` finds.

* `encodeOptions`, `optionList`: the options of a reply, one after the other, and the list of
  them; `fillOptions_eq` says that this is what `fill_options` writes, with `DHCP_END` behind;
* `lookupFrom_encodeOptions`: over encoded options the search goes from one option to the next,
  whatever the values are;
* `lookupFrom_of_end`: behind the `DHCP_END` and the zeros the search finds nothing;
* `options_round_trip`: the message type, the addresses, the lease time and the domain come back.
-/

namespace Stm32Ecm.Dhcp

/-! ### Looking up the value of an option -/

/-- The value of the option the search finds, going on from a position. -/
def lookupFrom (attrs : ℕ → UInt8) (size : ℕ) (attr : UInt8) (i : ℕ) : Option (List UInt8) :=
  (findDhcpOptionLoop attrs size attr size i).map fun j =>
    Memory.read attrs (j + 2) (attrs (j + 1)).toNat

/-- The value of the option that `find_dhcp_option` finds, as long as its length byte says. -/
def lookupOption (attrs : ℕ → UInt8) (size : ℕ) (attr : UInt8) : Option (List UInt8) :=
  (findDhcpOption attrs size attr).map fun j => Memory.read attrs (j + 2) (attrs (j + 1)).toNat

/-- The options one after the other. -/
def encodeOptions (os : List (UInt8 × List UInt8)) : List UInt8 :=
  os.flatMap fun o => dhcpOption o.1 o.2

section Lookup

variable {attrs : ℕ → UInt8} {size i : ℕ} {attr code : UInt8} {val : List UInt8}

/-- One round of the search. -/
lemma findDhcpOptionLoop_size :
    findDhcpOptionLoop attrs size attr size i =
      if optionEnd attrs i ≤ size then
        if attrs i = attr then some i
        else findDhcpOptionLoop attrs size attr size (optionEnd attrs i)
      else none := by
  have hend : i + 2 ≤ optionEnd attrs i := add_two_le_optionEnd
  rw [← findDhcpOptionLoop_add size 1 (by omega), findDhcpOptionLoop_succ]

/-- An option that was written is either the one looked for or passed over. -/
lemma lookupFrom_dhcpOption (hread : Memory.read attrs i (val.length + 2) = dhcpOption code val)
    (hlen : val.length < 256) (hfits : i + (val.length + 2) ≤ size) :
    lookupFrom attrs size attr i =
      if code = attr then some val else lookupFrom attrs size attr (i + (val.length + 2)) := by
  rw [Memory.read_succ, Memory.read_succ, dhcpOption] at hread
  obtain ⟨hcode, hread⟩ := List.cons.inj hread
  obtain ⟨hbyte, hval⟩ := List.cons.inj hread
  have hnat : (attrs (i + 1)).toNat = val.length := by
    rw [hbyte, UInt8.toNat_ofNat']
    omega
  have hend : optionEnd attrs i = i + (val.length + 2) := by
    rw [optionEnd, hnat]
    omega
  rw [lookupFrom, findDhcpOptionLoop_size, if_pos (by omega), hcode]
  split_ifs with h
  · rw [Option.map_some, hnat, hval]
  · rw [hend, lookupFrom]

/-- **The search over encoded options.** -/
lemma lookupFrom_encodeOptions {os : List (UInt8 × List UInt8)}
    (hread : Memory.read attrs i (encodeOptions os).length = encodeOptions os)
    (hlen : ∀ o ∈ os, o.2.length < 256) (hfits : i + (encodeOptions os).length ≤ size) :
    lookupFrom attrs size attr i =
      (os.lookup attr).or (lookupFrom attrs size attr (i + (encodeOptions os).length)) := by
  induction os generalizing i with
  | nil => simp [encodeOptions]
  | cons o os ih =>
      have hcons : encodeOptions (o :: os) = dhcpOption o.1 o.2 ++ encodeOptions os := rfl
      rw [hcons, List.length_append, length_dhcpOption] at hread hfits ⊢
      rw [Memory.read_add] at hread
      obtain ⟨hhead, htail⟩ := List.append_inj hread (by rw [Memory.length_read, length_dhcpOption])
      rw [lookupFrom_dhcpOption hhead (hlen o (by simp)) (by omega),
        ih htail (fun o' ho' => hlen o' (by simp [ho'])) (by omega), Nat.add_assoc,
        List.lookup_cons]
      by_cases h : o.1 = attr
      · rw [if_pos h, h]
        simp
      · rw [if_neg h, show (attr == o.1) = false from beq_false_of_ne (Ne.symm h)]

/-- Over zeros the search finds nothing. -/
lemma lookupFrom_of_zeros (h₀ : attr ≠ 0) (hz : ∀ j, i ≤ j → j < size → attrs j = 0) :
    lookupFrom attrs size attr i = none := by
  induction hn : size - i using Nat.strong_induction_on generalizing i with
  | _ n ih =>
    have hle : i + 2 ≤ optionEnd attrs i := add_two_le_optionEnd
    rw [lookupFrom, findDhcpOptionLoop_size]
    split_ifs with hfits hattr
    · exact absurd (hattr.symm.trans (hz i (by omega) (by omega))) h₀
    · have hend : optionEnd attrs i = i + 2 := by
        rw [optionEnd, hz (i + 1) (by omega) (by omega), UInt8.toNat_zero]
      rw [hend]
      exact ih (size - (i + 2)) (by omega) (fun j hj => hz j (by omega)) rfl
    · rfl

/-- The end of the options is taken for an option, but one that hides nothing. -/
lemma lookupFrom_of_end (h₀ : attr ≠ 0) (h₁ : attr ≠ 255) (hstop : attrs i = 255)
    (hz : ∀ j, i < j → j < size → attrs j = 0) : lookupFrom attrs size attr i = none := by
  have hle : i + 2 ≤ optionEnd attrs i := add_two_le_optionEnd
  rw [lookupFrom, findDhcpOptionLoop_size]
  split_ifs with hfits hattr
  · exact absurd (hattr.symm.trans hstop) h₁
  · have hend : optionEnd attrs i = i + 2 := by
      rw [optionEnd, hz (i + 1) (by omega) (by omega), UInt8.toNat_zero]
    rw [hend]
    exact lookupFrom_of_zeros h₀ fun j hj => hz j (by omega)
  · rfl

end Lookup

/-! ### The options of a reply -/

/-- The options that `fill_options` writes, in order. -/
def optionList (msgType : UInt8) (domain : Option (List UInt8)) (dns : ℕ) (leaseTime : UInt32)
    (serverid router subnet : ℕ) : List (UInt8 × List UInt8) :=
  [(53, [msgType]), (54, setIp serverid), (51, leaseBytes leaseTime), (1, setIp subnet)] ++
    (if router ≠ 0 then [(3, setIp router)] else []) ++
    domain.elim [] (fun name => [(15, name)]) ++
    (if dns ≠ 0 then [(6, setIp dns)] else [])

/-- The byte of `lease_time` that `(lease_time >> k) & 0xFF` selects: `lease_time` is an `int`, so
the shift copies its sign. -/
def leaseByte (leaseTime : UInt32) (k : ℕ) : UInt8 :=
  ⟨(leaseTime.toBitVec.sshiftRight k &&& 0xFF#32).setWidth 8⟩

/-- The value of bytes with the high byte first. -/
def bigEndian (bs : List UInt8) : ℕ := bs.foldl (fun v b => 256 * v + b.toNat) 0

/-- `dp_options` at `dest`, cleared, and filled from its start. -/
def filledArea (m : ℕ → UInt8) (dest : ℕ) (opts : List UInt8) : ℕ → UInt8 := fun i =>
  Memory.write (Memory.write m dest (List.replicate sizeofDpOptions 0)) dest opts (dest + i)

/-- The area has an option with the code and four bytes, from which `get_ip` reads the value. -/
def Carries (attrs : ℕ → UInt8) (attr : UInt8) (value : UInt32) : Prop :=
  ∃ v : Bytes 4, lookupOption attrs sizeofDpOptions attr = some v.1 ∧ getIp v = value.toNat

section Fill

variable {msgType : UInt8} {domain : Option (List UInt8)} {leaseTime : UInt32}
variable {dns serverid router subnet : ℕ} {m : ℕ → UInt8} {dest i : ℕ} {opts : List UInt8}

lemma fillOptions_eq :
    fillOptions msgType domain dns leaseTime serverid router subnet =
      encodeOptions (optionList msgType domain dns leaseTime serverid router subnet) ++ [255] := by
  have hrouter : (if router ≠ 0 then dhcpOption 3 (setIp router) else []) =
      encodeOptions (if router ≠ 0 then [(3, setIp router)] else []) := by
    split_ifs <;> simp [encodeOptions]
  have hdns : (if dns ≠ 0 then dhcpOption 6 (setIp dns) else []) =
      encodeOptions (if dns ≠ 0 then [(6, setIp dns)] else []) := by
    split_ifs <;> simp [encodeOptions]
  have hdomain : domain.elim [] (dhcpOption 15) =
      encodeOptions (domain.elim [] fun name => [(15, name)]) := by
    cases domain <;> simp [encodeOptions]
  rw [fillOptions, hrouter, hdns, hdomain]
  simp [optionList, encodeOptions]

/-- The sign does not reach the byte that is kept. -/
lemma leaseByte_eq {k : ℕ} (hk : k ≤ 24) :
    leaseByte leaseTime k = ⟨(leaseTime.toBitVec >>> k).setWidth 8⟩ := by
  rw [leaseByte]
  congr 1
  refine BitVec.eq_of_getLsbD_eq fun j hj => ?_
  have hmask : (0xFF#32).getLsbD j = true := by
    have hall : ∀ j < 8, (0xFF#32).getLsbD j = true := by decide
    exact hall j hj
  simp only [BitVec.getLsbD_setWidth, BitVec.getLsbD_and, BitVec.getLsbD_sshiftRight,
    BitVec.getLsbD_ushiftRight, hmask, Bool.and_true]
  simp [hj, show ¬ 32 ≤ j by omega, show k + j < 32 by omega]

lemma leaseBytes_eq : leaseBytes leaseTime = [24, 16, 8, 0].map (leaseByte leaseTime) := by
  simp only [List.map_cons, List.map_nil, leaseByte_eq (show 24 ≤ 24 by decide),
    leaseByte_eq (show 16 ≤ 24 by decide), leaseByte_eq (show 8 ≤ 24 by decide),
    leaseByte_eq (show 0 ≤ 24 by decide)]
  rfl

lemma getIp_setIp (value : UInt32) : getIp ⟨setIp value.toNat, rfl⟩ = value.toNat := by
  have hlt := value.toNat_lt
  simp only [getIp, setIp, List.foldr_cons, List.foldr_nil, UInt8.toNat_ofNat']
  omega

lemma bigEndian_leaseBytes : bigEndian (leaseBytes leaseTime) = leaseTime.toNat := by
  have hlt := leaseTime.toNat_lt
  simp only [bigEndian, leaseBytes, List.foldl_cons, List.foldl_nil, UInt32.toNat_toUInt8,
    UInt32.toNat_shiftRight]
  simp [Nat.shiftRight_eq_div_pow]
  omega

lemma findDhcpOption_eq_none {attrs : ℕ → UInt8} {size : ℕ} {attr : UInt8}
    (h : lookupOption attrs size attr = none) : findDhcpOption attrs size attr = none :=
  Option.map_eq_none_iff.mp h

/-- An address that is written if it is not zero. -/
lemma carries_or_missing {attrs : ℕ → UInt8} {attr : UInt8} {value : UInt32}
    (h : lookupOption attrs sizeofDpOptions attr =
      if value.toNat ≠ 0 then some (setIp value.toNat) else none) :
    if value ≠ 0 then Carries attrs attr value
      else findDhcpOption attrs sizeofDpOptions attr = none := by
  have hzero : value.toNat = 0 ↔ value = 0 := by rw [← UInt32.toNat_inj, UInt32.toNat_zero]
  split_ifs with hvalue
  · rw [if_pos fun h' => hvalue (hzero.mp h')] at h
    exact ⟨⟨setIp value.toNat, rfl⟩, h, getIp_setIp value⟩
  · rw [if_neg fun h' => h' (hzero.mpr (not_not.mp hvalue))] at h
    exact findDhcpOption_eq_none h

lemma getElem?_filledArea (hi : i < opts.length) :
    opts[i]? = some (filledArea m dest opts i) := by
  rw [filledArea, Memory.write, if_pos (by omega), Nat.add_sub_cancel_left,
    List.getElem?_eq_getElem hi, Option.getD_some]

lemma filledArea_of_le (hi : opts.length ≤ i) (hsize : i < sizeofDpOptions) :
    filledArea m dest opts i = 0 := by
  rw [filledArea, Memory.write_apply_of_le (by omega), Memory.write, if_pos (by omega),
    Nat.add_sub_cancel_left, List.getElem?_replicate, if_pos hsize, Option.getD_some]

lemma read_filledArea : Memory.read (filledArea m dest opts) 0 opts.length = opts := by
  refine List.ext_getElem? fun i => ?_
  by_cases hi : i < opts.length
  · rw [Memory.getElem?_read hi, Nat.zero_add, getElem?_filledArea hi]
  · rw [List.getElem?_eq_none (by simpa using hi), List.getElem?_eq_none (by omega)]

lemma length_optionList_lt (hdomain : ∀ name ∈ domain, name.length ≤ 239) :
    ∀ o ∈ optionList msgType domain dns leaseTime serverid router subnet, o.2.length < 256 := by
  intro o ho
  simp only [optionList, List.mem_append, List.mem_cons, List.not_mem_nil, or_false] at ho
  rcases ho with (((rfl | rfl | rfl | rfl) | ho) | ho) | ho
  · simp
  · simp [setIp]
  · simp [leaseBytes]
  · simp [setIp]
  · split_ifs at ho
    · rw [List.mem_singleton] at ho
      simp [ho, setIp]
    · cases ho
  · cases domain with
    | none => cases ho
    | some name =>
        rw [Option.elim_some, List.mem_singleton] at ho
        have hlen := hdomain name rfl
        rw [ho]
        simp only
        omega
  · split_ifs at ho
    · rw [List.mem_singleton] at ho
      simp [ho, setIp]
    · cases ho

/-- **The search in the options of a reply.** -/
lemma lookupOption_filledArea {attr : UInt8} (h₀ : attr ≠ 0) (h₁ : attr ≠ 255)
    (hdomain : ∀ name ∈ domain, name.length ≤ 239)
    (hfits : (fillOptions msgType domain dns leaseTime serverid router subnet).length ≤
      sizeofDpOptions) :
    lookupOption (filledArea m dest
        (fillOptions msgType domain dns leaseTime serverid router subnet)) sizeofDpOptions attr =
      (optionList msgType domain dns leaseTime serverid router subnet).lookup attr := by
  have hlen := @length_optionList_lt msgType domain leaseTime dns serverid router subnet hdomain
  rw [fillOptions_eq] at hfits ⊢
  generalize optionList msgType domain dns leaseTime serverid router subnet = os at *
  rw [List.length_append, List.length_singleton] at hfits
  have hread : Memory.read (filledArea m dest (encodeOptions os ++ [255])) 0
      (encodeOptions os).length = encodeOptions os := by
    have hall := @read_filledArea m dest (encodeOptions os ++ [255])
    rw [List.length_append, Memory.read_add] at hall
    exact (List.append_inj hall Memory.length_read).1
  have hstop : filledArea m dest (encodeOptions os ++ [255]) (encodeOptions os).length = 255 := by
    have hlast := @getElem?_filledArea m dest (encodeOptions os).length
      (encodeOptions os ++ [255]) (by simp)
    simpa using hlast.symm
  have hbehind : lookupFrom (filledArea m dest (encodeOptions os ++ [255])) sizeofDpOptions attr
      (encodeOptions os).length = none := by
    refine lookupFrom_of_end h₀ h₁ hstop fun j hj hsize => filledArea_of_le ?_ hsize
    rw [List.length_append, List.length_singleton]
    omega
  have hfrom := @lookupFrom_encodeOptions _ sizeofDpOptions 0 attr os hread hlen (by omega)
  rw [Nat.zero_add, hbehind, Option.or_none] at hfrom
  exact hfrom

lemma lookup_ite {p : Prop} [Decidable p] {code attr : UInt8} {val : List UInt8} :
    (if p then [(code, val)] else []).lookup attr =
      if attr = code then if p then some val else none else none := by
  by_cases h : attr = code
  · rw [if_pos h, h]
    split_ifs <;> simp
  · rw [if_neg h]
    split_ifs <;> simp [h]

lemma lookup_elim {code attr : UInt8} :
    (domain.elim [] fun name => [(code, name)]).lookup attr =
      if attr = code then domain else none := by
  cases domain with
  | none => simp
  | some name =>
      by_cases h : attr = code
      · simp [h]
      · simp [h]

/-- The options that are not always there. -/
lemma lookup_optionList {attr : UInt8} (h53 : attr ≠ 53) (h54 : attr ≠ 54) (h51 : attr ≠ 51)
    (h1 : attr ≠ 1) :
    (optionList msgType domain dns leaseTime serverid router subnet).lookup attr =
      if attr = 3 then if router ≠ 0 then some (setIp router) else none
      else if attr = 15 then domain
      else if attr = 6 then if dns ≠ 0 then some (setIp dns) else none
      else none := by
  have hfixed : ([(53, [msgType]), (54, setIp serverid), (51, leaseBytes leaseTime),
      (1, setIp subnet)] : List (UInt8 × List UInt8)).lookup attr = none := by
    simp [h53, h54, h51, h1]
  rw [optionList, List.lookup_append, List.lookup_append, List.lookup_append, hfixed,
    Option.none_or, lookup_ite, lookup_elim, lookup_ite]
  by_cases h3 : attr = 3
  · subst h3
    simp
  · rw [if_neg h3, if_neg h3, Option.none_or]
    by_cases h15 : attr = 15
    · subst h15
      simp
    · rw [if_neg h15, if_neg h15, Option.none_or]

/-- The last byte written is `DHCP_END`. -/
lemma filledArea_last :
    filledArea m dest (fillOptions msgType domain dns leaseTime serverid router subnet)
      ((fillOptions msgType domain dns leaseTime serverid router subnet).length - 1) = 255 := by
  rw [fillOptions_eq]
  generalize optionList msgType domain dns leaseTime serverid router subnet = os
  rw [List.length_append, List.length_singleton, Nat.add_sub_cancel]
  have hlast := @getElem?_filledArea m dest (encodeOptions os).length
    (encodeOptions os ++ [255]) (by simp)
  simpa using hlast.symm

end Fill

/-- **Round trip of the options.**  Whatever stood in `dp_options` before, once the area is cleared
and filled, it ends with `DHCP_END` and zeros, and `find_dhcp_option` finds the message type, the
server, the lease time and the subnet mask, the router and the name server if they are not zero,
the domain if there is one, and no other option. -/
theorem options_round_trip (m : ℕ → UInt8) (dest : ℕ) (msgType : UInt8)
    (domain : Option (List UInt8)) (dns leaseTime serverid router subnet : UInt32)
    (hdomain : ∀ name ∈ domain, name.length ≤ 239) (opts : List UInt8) (attrs : ℕ → UInt8)
    (hopts : opts = fillOptions msgType domain dns.toNat leaseTime serverid.toNat router.toNat
      subnet.toNat) (hattrs : attrs = filledArea m dest opts) :
    (opts.length ≤ sizeofDpOptions ∧ attrs (opts.length - 1) = 255 ∧
        ∀ i, opts.length ≤ i → i < sizeofDpOptions → attrs i = 0) ∧
      lookupOption attrs sizeofDpOptions 53 = some [msgType] ∧
      Carries attrs 54 serverid ∧
      (lookupOption attrs sizeofDpOptions 51 = some ([24, 16, 8, 0].map (leaseByte leaseTime)) ∧
        bigEndian ([24, 16, 8, 0].map (leaseByte leaseTime)) = leaseTime.toNat) ∧
      Carries attrs 1 subnet ∧
      (if router ≠ 0 then Carries attrs 3 router
        else findDhcpOption attrs sizeofDpOptions 3 = none) ∧
      lookupOption attrs sizeofDpOptions 15 = domain ∧
      (if dns ≠ 0 then Carries attrs 6 dns else findDhcpOption attrs sizeofDpOptions 6 = none) ∧
      ∀ attr, attr ∉ ([0, 255, 53, 54, 51, 1, 3, 15, 6] : List UInt8) →
        findDhcpOption attrs sizeofDpOptions attr = none := by
  subst hattrs hopts
  have hfits :=
    @length_fillOptions_le ⟨zeroBytes 4, zeroBytes 4, domain, hdomain⟩ msgType dns.toNat leaseTime
      serverid.toNat router.toNat subnet.toNat
  have hlookup := fun (attr : UInt8) (h₀ : attr ≠ 0) (h₁ : attr ≠ 255) =>
    @lookupOption_filledArea msgType domain leaseTime dns.toNat serverid.toNat router.toNat
      subnet.toNat m dest attr h₀ h₁ hdomain hfits
  refine ⟨⟨hfits, filledArea_last, fun i => filledArea_of_le⟩, ?_, ?_, ⟨?_, ?_⟩, ?_, ?_, ?_, ?_,
    ?_⟩
  · rw [hlookup 53 (by decide) (by decide)]
    rfl
  · exact ⟨⟨setIp serverid.toNat, rfl⟩, hlookup 54 (by decide) (by decide), getIp_setIp serverid⟩
  · rw [hlookup 51 (by decide) (by decide), ← leaseBytes_eq]
    rfl
  · rw [← leaseBytes_eq, bigEndian_leaseBytes]
  · exact ⟨⟨setIp subnet.toNat, rfl⟩, hlookup 1 (by decide) (by decide), getIp_setIp subnet⟩
  · refine carries_or_missing ?_
    rw [hlookup 3 (by decide) (by decide),
      lookup_optionList (by decide) (by decide) (by decide) (by decide)]
    rfl
  · rw [hlookup 15 (by decide) (by decide),
      lookup_optionList (by decide) (by decide) (by decide) (by decide)]
    rfl
  · refine carries_or_missing ?_
    rw [hlookup 6 (by decide) (by decide),
      lookup_optionList (by decide) (by decide) (by decide) (by decide)]
    rfl
  · intro attr hattr
    simp only [List.mem_cons, List.not_mem_nil, or_false, not_or] at hattr
    obtain ⟨h0, h255, h53, h54, h51, h1, h3, h15, h6⟩ := hattr
    refine findDhcpOption_eq_none ?_
    rw [hlookup attr h0 h255, lookup_optionList h53 h54 h51 h1, if_neg h3, if_neg h15, if_neg h6]

/-- The reply of `main.c`: the domain is found as it was written. -/
theorem options_round_trip_main :
    lookupOption (filledArea (fun _ => 0) 240
        (fillOptions 2 (some [0x73, 0x74, 0x6d]) (17279168 : UInt32).toNat 86400
          (17279168 : UInt32).toNat (17279168 : UInt32).toNat (16777215 : UInt32).toNat))
      sizeofDpOptions 15 = some [0x73, 0x74, 0x6d] :=
  (options_round_trip (fun _ => 0) 240 2 (some [0x73, 0x74, 0x6d]) 17279168 86400 17279168
    17279168 16777215 (by simp) _ _ rfl rfl).2.2.2.2.2.2.1

end Stm32Ecm.Dhcp
