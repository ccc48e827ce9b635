import VpnStack.Lib.Text

/-!
# IPv4 addresses and networks

An address is a number of 32 bits, and a network is an aligned block of addresses. This library has what Python's `ipaddress`
does with the two: how they are read and written, the network above a network, and the loop that widens a network until it
reaches an address.
-/

/-- An IPv4 address, as its number. -/
structure Ip4 where
  number : Nat
  number_lt : number < 2 ^ 32
  deriving DecidableEq

/-- A block of addresses: `2 ^ (32 - prefixlen)` of them, the first a multiple of that. -/
structure Ip4Network where
  networkAddress : Nat
  prefixlen : Nat
  prefixlen_le : prefixlen ≤ 32
  networkAddress_lt : networkAddress < 2 ^ 32
  aligned : 2 ^ (32 - prefixlen) ∣ networkAddress
  deriving DecidableEq

namespace Ip4Network

/-- The last address of the block. -/
def broadcastAddress (n : Ip4Network) : Nat := n.networkAddress + 2 ^ (32 - n.prefixlen) - 1

def Contains (n : Ip4Network) (a : Ip4) : Prop := n.networkAddress ≤ a.number ∧ a.number ≤ n.broadcastAddress

instance (n : Ip4Network) (a : Ip4) : Decidable (n.Contains a) := inferInstanceAs (Decidable (_ ∧ _))

/-- The network of that length that an address is in: `strict=False` clears the host bits. -/
def block (a : Ip4) (prefixlen : Nat) (h : prefixlen ≤ 32) : Ip4Network where
  networkAddress := a.number / 2 ^ (32 - prefixlen) * 2 ^ (32 - prefixlen)
  prefixlen := prefixlen
  prefixlen_le := h
  networkAddress_lt := lt_of_le_of_lt (Nat.div_mul_le_self ..) a.number_lt
  aligned := Nat.dvd_mul_left ..

/-- The network one bit shorter; above the whole address space there is none. -/
def supernet (n : Ip4Network) : Ip4Network :=
  if n.prefixlen = 0 then n
  else block ⟨n.networkAddress, n.networkAddress_lt⟩ (n.prefixlen - 1) (le_trans (Nat.sub_le ..) n.prefixlen_le)

/-! ## Blocks -/

section Blocks

variable {a b : Ip4} {p q : Nat}

theorem block_prefixlen (h : p ≤ 32) : (block a p h).prefixlen = p := rfl

/-- Two addresses are in one block when they agree above its host bits. -/
theorem block_contains (h : p ≤ 32) : (block a p h).Contains b ↔ b.number / 2 ^ (32 - p) = a.number / 2 ^ (32 - p) :=
  (Nat.div_eq_iff (Nat.two_pow_pos _)).symm

theorem block_self (h : p ≤ 32) : (block a p h).Contains a := (block_contains h).mpr rfl

/-- A network is the block of each of its addresses. -/
theorem eq_block {n : Ip4Network} (h : n.Contains a) : n = block a n.prefixlen n.prefixlen_le := by
  obtain ⟨k, hk⟩ := n.aligned
  have hquot : a.number / 2 ^ (32 - n.prefixlen) = k := by
    refine (Nat.div_eq_iff (Nat.two_pow_pos _)).mpr ?_
    rw [Nat.mul_comm k, ← hk]
    exact h
  have haddress : n.networkAddress = a.number / 2 ^ (32 - n.prefixlen) * 2 ^ (32 - n.prefixlen) := by
    rw [hquot, hk, Nat.mul_comm]
  cases n
  simp only [block, mk.injEq, and_true] at haddress ⊢
  exact haddress

/-- What agrees above some bits agrees above more of them. -/
theorem div_eq_of_le {m n j k : Nat} (h : m / 2 ^ j = n / 2 ^ j) (hjk : j ≤ k) : m / 2 ^ k = n / 2 ^ k := by
  obtain ⟨i, rfl⟩ := Nat.exists_eq_add_of_le hjk
  rw [Nat.pow_add, ← Nat.div_div_eq_div_mul, h, Nat.div_div_eq_div_mul]

/-- A shorter network of the same address holds all of the longer. -/
theorem block_mono (hp : p ≤ 32) (hq : q ≤ 32) (hqp : q ≤ p) (h : (block a p hp).Contains b) : (block a q hq).Contains b := by
  rw [block_contains] at h ⊢
  exact div_eq_of_le h (by omega)

/-- The block of one bit less is around it. -/
theorem supernet_block (h : p + 1 ≤ 32) : (block a (p + 1) h).supernet = block a p (Nat.le_of_succ_le h) := by
  have hcontains : (block a p (Nat.le_of_succ_le h)).Contains
      ⟨(block a (p + 1) h).networkAddress, (block a (p + 1) h).networkAddress_lt⟩ := by
    refine block_mono h _ (Nat.le_succ p) ?_
    refine ⟨le_rfl, ?_⟩
    have := Nat.two_pow_pos (32 - (p + 1))
    simp only [broadcastAddress, block_prefixlen]
    omega
  rw [supernet, if_neg (by simp [block_prefixlen])]
  exact (eq_block hcontains).symm

/-- The whole address space ends at no address before its last. -/
theorem broadcast_zero (h : 0 ≤ 32) : b.number ≤ (block a 0 h).broadcastAddress := by
  have hb := b.number_lt
  simp only [broadcastAddress, block_prefixlen]
  omega

end Blocks

/-! ## The loop that widens -/

/-- `while net.broadcast_address < last: net = net.supernet()`, with that many tests of its condition. -/
def widen (last : Ip4) : Nat → Ip4Network → Option Ip4Network
  | 0, _ => none
  | fuel + 1, n => if n.broadcastAddress < last.number then widen last fuel n.supernet else some n

/-- The loop ends at the first network above that reaches the address, after one test for each bit it takes. -/
theorem widen_block {a last : Ip4} {p fuel : Nat} (hp : p ≤ 32) (hfuel : p < fuel) :
    ∃ q, ∃ hq : q ≤ 32, widen last fuel (block a p hp) = some (block a q hq) ∧ q ≤ p ∧
      last.number ≤ (block a q hq).broadcastAddress ∧
      ∀ r, ∀ hr : r ≤ 32, q < r → r ≤ p → (block a r hr).broadcastAddress < last.number := by
  induction p generalizing fuel with
  | zero =>
    obtain ⟨fuel, rfl⟩ := Nat.exists_eq_succ_of_ne_zero (Nat.ne_of_gt hfuel)
    refine ⟨0, hp, ?_, le_rfl, broadcast_zero hp, fun r hr h h' => by omega⟩
    rw [widen, if_neg (Nat.not_lt.mpr (broadcast_zero hp))]
  | succ p ih =>
    obtain ⟨fuel, rfl⟩ := Nat.exists_eq_succ_of_ne_zero (Nat.ne_of_gt (Nat.zero_lt_of_lt hfuel))
    rw [widen]
    by_cases hlast : (block a (p + 1) hp).broadcastAddress < last.number
    · obtain ⟨q, hq, hrun, hqp, hreach, hshort⟩ := ih (Nat.le_of_succ_le hp) (Nat.lt_of_succ_lt_succ hfuel)
      rw [if_pos hlast, supernet_block hp]
      refine ⟨q, hq, hrun, by omega, hreach, fun r hr h h' => ?_⟩
      rcases Nat.lt_or_eq_of_le h' with h' | rfl
      · exact hshort r hr h (by omega)
      · exact hlast
    · rw [if_neg hlast]
      exact ⟨p + 1, hp, rfl, le_rfl, Nat.not_lt.mp hlast, fun r hr h h' => by omega⟩

/-! ## The summary of a range -/

/-- The zeros at the low end of a number, as far as they are counted. -/
def zeroBits : Nat → Nat → Nat
  | 0, _ => 0
  | bits + 1, n => if n % 2 = 0 then zeroBits bits (n / 2) + 1 else 0

/-- No more zero bits are counted at the end of a number than were asked for. -/
theorem zeroBits_le (bits n : Nat) : zeroBits bits n ≤ bits := by
  induction bits generalizing n with
  | zero => exact le_rfl
  | succ bits ih =>
    rw [zeroBits]
    split
    · exact Nat.succ_le_succ (ih _)
    · exact Nat.zero_le _

/-- A number is divided by the power of two of the zero bits counted at its end. -/
theorem zeroBits_dvd (bits n : Nat) : 2 ^ zeroBits bits n ∣ n := by
  induction bits generalizing n with
  | zero => exact Nat.one_dvd _
  | succ bits ih =>
    rw [zeroBits]
    split
    · rename_i heven
      obtain ⟨k, rfl⟩ := Nat.dvd_of_mod_eq_zero heven
      rw [Nat.mul_div_cancel_left k Nat.two_pos, Nat.pow_succ, Nat.mul_comm]
      exact Nat.mul_dvd_mul_left 2 (ih k)
    · exact Nat.one_dvd _

/-- The host bits of the first block of the range: as many as its start has zeros, and no more than the range has room for. -/
def summaryBits (first last : Ip4) : Nat := min (zeroBits 32 first.number) (Nat.log2 (last.number - first.number + 1))

/-- `next(summarize_address_range(first, last))`: the largest block that begins with the range and stays in it. -/
def firstSummary (first last : Ip4) : Ip4Network := block first (32 - summaryBits first last) (Nat.sub_le ..)

section Summary

variable {first last : Ip4}

theorem summaryBits_le : summaryBits first last ≤ 32 := le_trans (Nat.min_le_left ..) (zeroBits_le ..)

/-- The first block begins where the range does. -/
theorem firstSummary_start : (firstSummary first last).networkAddress = first.number := by
  have hbits : 32 - (32 - summaryBits first last) = summaryBits first last := by
    have := @summaryBits_le first last
    omega
  have hdvd : 2 ^ summaryBits first last ∣ first.number :=
    Dvd.dvd.trans (Nat.pow_dvd_pow 2 (Nat.min_le_left ..)) (zeroBits_dvd 32 first.number)
  simp only [firstSummary, block, hbits]
  exact Nat.div_mul_cancel hdvd

/-- The first block ends in the range. -/
theorem firstSummary_stays (h : first.number ≤ last.number) : (firstSummary first last).broadcastAddress ≤ last.number := by
  have hbits : 32 - (32 - summaryBits first last) = summaryBits first last := by
    have := @summaryBits_le first last
    omega
  have hsize : 2 ^ summaryBits first last ≤ last.number - first.number + 1 :=
    le_trans (Nat.pow_le_pow_right Nat.two_pos (Nat.min_le_right ..)) (Nat.log2_self_le (Nat.succ_ne_zero _))
  rw [broadcastAddress, firstSummary_start, firstSummary, block_prefixlen, hbits]
  omega

/-- A network that holds both ends of a range is no smaller than the first block of it. -/
theorem prefixlen_le_firstSummary (h : first.number ≤ last.number) {n : Ip4Network} (hfirst : n.Contains first)
    (hlast : n.Contains last) : n.prefixlen ≤ (firstSummary first last).prefixlen := by
  by_contra hlt
  push Not at hlt
  have hstart := @firstSummary_start first last
  have hstays := firstSummary_stays h
  have hsize : 2 ^ (32 - n.prefixlen) < 2 ^ (32 - (firstSummary first last).prefixlen) :=
    Nat.pow_lt_pow_right Nat.one_lt_two (by have := n.prefixlen_le; omega)
  -- the block that begins with the range is larger than the network, so it does not end in it
  have hbegin := hfirst.1
  have hend := hlast.2
  have hpos := Nat.two_pow_pos (32 - n.prefixlen)
  rw [broadcastAddress] at hstays hend
  omega

end Summary

/-- The smallest network with both addresses in it. -/
structure Covers (a b : Ip4) (n : Ip4Network) : Prop where
  first : n.Contains a
  last : n.Contains b
  least : ∀ n' : Ip4Network, n'.Contains a → n'.Contains b → n'.prefixlen ≤ n.prefixlen

/-- Widened until it reaches the end of its range, the first block is the smallest network that covers the range. -/
theorem widen_covers {first last : Ip4} (h : first.number ≤ last.number) {fuel : Nat} (hfuel : 33 ≤ fuel) :
    ∃ n, widen last fuel (firstSummary first last) = some n ∧ Covers first last n := by
  obtain ⟨q, hq, hrun, hqp, hreach, hshort⟩ := @widen_block first last _ fuel
    (Nat.sub_le 32 (summaryBits first last)) (by omega)
  refine ⟨_, hrun, block_self hq, ⟨le_trans (block_self hq).1 h, hreach⟩, fun n hfirst hlast => ?_⟩
  by_contra hlt
  push Not at hlt
  have hle := prefixlen_le_firstSummary h hfirst hlast
  have hbefore := hshort n.prefixlen n.prefixlen_le hlt hle
  rw [← eq_block hfirst] at hbefore
  exact absurd hlast.2 (Nat.not_le.mpr hbefore)

/-- Two addresses have one smallest network. -/
theorem Covers.unique {first last : Ip4} {n n' : Ip4Network} (h : Covers first last n) (h' : Covers first last n') : n = n' := by
  have hlen : n.prefixlen = n'.prefixlen := le_antisymm (h'.least n h.first h.last) (h.least n' h'.first h'.last)
  rw [eq_block h.first, eq_block h'.first]
  congr 1

end Ip4Network

/-! ## Reading and writing -/

/-- Digits of base ten, at least one of them. -/
def isDecimal (t : Text) : Bool := !t.isEmpty && t.all Char.isDigit

/-- Where every element is read, each of them is. -/
theorem isSome_of_mapM {α β : Type} {f : α → Option β} {l : List α} {l' : List β} (h : l.mapM f = some l') :
    ∀ w ∈ l, (f w).isSome := by
  induction l generalizing l' with
  | nil =>
    intro w hw
    cases hw
  | cons x xs ih =>
    rw [List.mapM_cons] at h
    obtain ⟨y, hy, h⟩ := Option.bind_eq_some_iff.mp h
    obtain ⟨ys, hys, -⟩ := Option.bind_eq_some_iff.mp h
    intro w hw
    rcases List.mem_cons.mp hw with rfl | hw
    · rw [hy]
      rfl
    · exact ih hys w hw

namespace Ip4

/-- One of the four numbers: up to three digits, no zero in front of others, below 256. -/
def parseOctet (t : Text) : Option (Fin 256) :=
  if h : (isDecimal t ∧ t.length ≤ 3 ∧ (t = ['0'] ∨ t.head? ≠ some '0')) ∧ Nat.ofDigitChars 10 t 0 < 256 then
    some ⟨Nat.ofDigitChars 10 t 0, h.2⟩
  else none

def ofOctets (a b c d : Fin 256) : Ip4 where
  number := ((a.val * 256 + b.val) * 256 + c.val) * 256 + d.val
  number_lt := by omega

/-- `IPv4Address(t)`. -/
def parse (t : Text) : Option Ip4 :=
  match (t.splitOn '.').mapM parseOctet with
  | some [a, b, c, d] => some (ofOctets a b c d)
  | _ => none

/-- `str(a)`. -/
def text (a : Ip4) : Text :=
  ['.'].intercalate ([a.number / 2 ^ 24, a.number / 2 ^ 16 % 256, a.number / 2 ^ 8 % 256, a.number % 256].map (Nat.toDigits 10))

/-- An address is written with digits and dots. -/
theorem of_mem_parse {t : Text} {a : Ip4} (h : parse t = some a) {c : Char} (hc : c ∈ t) : c.isDigit ∨ c = '.' := by
  have hoctet : ∀ w : Text, (parseOctet w).isSome → ∀ d ∈ w, d.isDigit := by
    intro w hw d hd
    rw [parseOctet] at hw
    split at hw
    · rename_i hok
      have hdecimal := hok.1.1
      simp only [isDecimal, Bool.and_eq_true, List.all_eq_true] at hdecimal
      exact hdecimal.2 d hd
    · cases hw
  rw [parse] at h
  split at h
  · rename_i a b c' d hall
    rw [← @List.intercalate_splitOn _ t _ _ '.'] at hc
    rcases Text.eq_or_mem_of_mem_intercalate hc with hc | ⟨w, hw, hcw⟩
    · exact .inr hc
    · exact .inl (hoctet w (isSome_of_mapM hall w hw) c hcw)
  · cases h

/-- An address is written without a slash. -/
theorem slash_of_parse {t : Text} {a : Ip4} (h : parse t = some a) : '/' ∉ t := by
  intro hmem
  rcases of_mem_parse h hmem with h | h
  · exact absurd h (by decide)
  · exact absurd h (by decide)

theorem parseOctet_toDigits : ∀ n : Fin 256, parseOctet (Nat.toDigits 10 n) = some n := by
  decide +kernel

/-- An address is read back from its text. -/
theorem parse_text (a : Ip4) : parse a.text = some a := by
  have hlt := a.number_lt
  have hoctets : ∀ n, n < 256 → parseOctet (Nat.toDigits 10 n) = some (Fin.ofNat 256 n) := by
    intro n hn
    have := parseOctet_toDigits ⟨n, hn⟩
    rw [this]
    congr 1
    exact Fin.ext (Nat.mod_eq_of_lt hn).symm
  have hdots : ∀ n, n < 256 → '.' ∉ Nat.toDigits 10 n := by
    intro n hn hmem
    exact absurd (Nat.isDigit_of_mem_toDigits (by decide) (by decide) hmem) (by decide)
  have hsplit : a.text.splitOn '.' =
      [a.number / 2 ^ 24, a.number / 2 ^ 16 % 256, a.number / 2 ^ 8 % 256, a.number % 256].map (Nat.toDigits 10) := by
    refine List.splitOn_intercalate _ (fun w hw => ?_) (by simp)
    obtain ⟨n, hn, rfl⟩ := List.mem_map.mp hw
    refine hdots n ?_
    simp only [List.mem_cons, List.not_mem_nil, or_false] at hn
    omega
  have h₁ := hoctets (a.number / 2 ^ 24) (by omega)
  have h₂ := hoctets (a.number / 2 ^ 16 % 256) (by omega)
  have h₃ := hoctets (a.number / 2 ^ 8 % 256) (by omega)
  have h₄ := hoctets (a.number % 256) (by omega)
  have hread : (a.text.splitOn '.').mapM parseOctet = some [Fin.ofNat 256 (a.number / 2 ^ 24), Fin.ofNat 256 (a.number / 2 ^ 16 % 256),
      Fin.ofNat 256 (a.number / 2 ^ 8 % 256), Fin.ofNat 256 (a.number % 256)] := by
    rw [hsplit]
    simp only [List.map_cons, List.map_nil, List.mapM_cons, List.mapM_nil, h₁, h₂, h₃, h₄]
    rfl
  rw [parse, hread]
  refine congrArg some ?_
  cases a
  simp only [ofOctets, mk.injEq, Fin.ofNat] at hlt ⊢
  omega

end Ip4

namespace Ip4Network

/-- The length of a network, as it stands behind the slash. -/
abbrev Length := { p : Nat // p ≤ 32 }

/-- A length written as a number, which `int` reads up to its limit on digits. -/
def lengthFromNumber (t : Text) : Option Length :=
  if h : (isDecimal t ∧ t.length ≤ 4300) ∧ Nat.ofDigitChars 10 t 0 ≤ 32 then some ⟨Nat.ofDigitChars 10 t 0, h.2⟩ else none

/-- A mask is ones in front of zeros. -/
def lengthFromMask (mask : Nat) : Option Length :=
  let zeros := zeroBits 32 mask
  if mask / 2 ^ zeros = 2 ^ (32 - zeros) - 1 then some ⟨32 - zeros, Nat.sub_le ..⟩ else none

/-- `_make_netmask`: a number, a mask in four parts, or the complement of one. -/
def makeNetmask (t : Text) : Option Length :=
  lengthFromNumber t <|>
    (Ip4.parse t).bind fun a => lengthFromMask a.number <|> lengthFromMask (2 ^ 32 - 1 - a.number)

/-- `IPv4Network(t, strict=False)`. -/
def parse (t : Text) : Option Ip4Network :=
  match t.splitOn '/' with
  | [a] => (Ip4.parse a).map fun a => block a 32 le_rfl
  | [a, mask] => (Ip4.parse a).bind fun a => (makeNetmask mask).map fun p => block a p.1 p.2
  | _ => none

/-- The first address, as an address. -/
def first (n : Ip4Network) : Ip4 := ⟨n.networkAddress, n.networkAddress_lt⟩

/-- A block ends where the address space ends, or before. -/
theorem broadcastAddress_lt (n : Ip4Network) : n.broadcastAddress < 2 ^ 32 := by
  obtain ⟨k, hk⟩ := n.aligned
  have hsplit : 2 ^ 32 = 2 ^ (32 - n.prefixlen) * 2 ^ n.prefixlen := by
    rw [← Nat.pow_add, Nat.sub_add_cancel n.prefixlen_le]
  have hlt : k < 2 ^ n.prefixlen := by
    have hlt := n.networkAddress_lt
    rw [hk, hsplit] at hlt
    exact Nat.lt_of_mul_lt_mul_left hlt
  have hnext : 2 ^ (32 - n.prefixlen) * (k + 1) ≤ 2 ^ 32 := by
    rw [hsplit]
    exact Nat.mul_le_mul_left _ hlt
  have hpos := Nat.two_pow_pos (32 - n.prefixlen)
  rw [broadcastAddress, hk]
  rw [Nat.mul_succ] at hnext
  omega

/-- The last address, as an address. -/
def last (n : Ip4Network) : Ip4 := ⟨n.broadcastAddress, n.broadcastAddress_lt⟩

/-- A network begins where it ends or before. -/
theorem first_le_last (n : Ip4Network) : n.first.number ≤ n.last.number := by
  have hpos := Nat.two_pow_pos (32 - n.prefixlen)
  simp only [first, last, broadcastAddress]
  omega

/-- `str(n)`. -/
def text (n : Ip4Network) : Text := n.first.text ++ '/' :: Nat.toDigits 10 n.prefixlen

theorem makeNetmask_toDigits : ∀ p : Fin 33, makeNetmask (Nat.toDigits 10 p) = some ⟨p, Nat.le_of_lt_succ p.2⟩ := by
  decide +kernel

/-- A network is read back from its text. -/
theorem parse_text (n : Ip4Network) : parse n.text = some n := by
  have hslash : '/' ∉ Nat.toDigits 10 n.prefixlen := fun hmem =>
    absurd (Nat.isDigit_of_mem_toDigits (by decide) (by decide) hmem) (by decide)
  have hsplit : n.text.splitOn '/' = [n.first.text, Nat.toDigits 10 n.prefixlen] := by
    have hjoin : n.text = ['/'].intercalate [n.first.text, Nat.toDigits 10 n.prefixlen] := by
      simp [text, List.intercalate]
    rw [hjoin]
    refine List.splitOn_intercalate _ (fun w hw => ?_) (by simp)
    simp only [List.mem_cons, List.not_mem_nil, or_false] at hw
    rcases hw with rfl | rfl
    · exact Ip4.slash_of_parse n.first.parse_text
    · exact hslash
  have hmask := makeNetmask_toDigits ⟨n.prefixlen, Nat.lt_succ_of_le n.prefixlen_le⟩
  have hfirst : n.Contains n.first := ⟨le_rfl, n.first_le_last⟩
  simp only [parse, hsplit, n.first.parse_text, hmask, Option.bind_some, Option.map_some]
  rw [← eq_block hfirst]

theorem text_injective {n n' : Ip4Network} (h : n.text = n'.text) : n = n' :=
  Option.some_inj.mp (by rw [← parse_text n, h, parse_text n'])

end Ip4Network

example : (Ip4Network.parse "192.168.77.10/255.255.255.0").map Ip4Network.text = some "192.168.77.0/24".toList := by decide
