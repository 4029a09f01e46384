import ListQuery.Form

/-! Form-encoded pairs are read back from what was written: byte by byte, then pair by pair. -/
namespace ListQuery
namespace Form

theorem unescape_plus (bs : List UInt8) : unescape (0x2B :: bs) = 0x20 :: unescape bs := by
  rw [unescape.eq_def]
  rfl

theorem unescape_plain {b : UInt8} (bs : List UInt8) (hp : b.toNat ≠ 0x2B) (hq : b.toNat ≠ 0x25) :
    unescape (b :: bs) = b :: unescape bs := by
  rw [unescape.eq_def]
  simp [hp, hq]

theorem unescape_hex {h l : UInt8} {x y : Nat} (bs : List UInt8) (hx : hexValue? h = some x)
    (hy : hexValue? l = some y) :
    unescape (0x25 :: h :: l :: bs) = .ofNat (16 * x + y) :: unescape bs := by
  rw [unescape.eq_def]
  simp [hx, hy]

theorem encodeChar_ofNat {n : Nat} (h : n < 128) :
    Utf8.encodeChar (Char.ofNat n) = [.ofNat n] := by
  have hv : n.isValidChar := Or.inl (by omega)
  have e : (Char.ofNat n).toNat = n := by
    unfold Char.ofNat
    rw [dif_pos hv]
    rfl
  simp [Utf8.encodeChar, e, h]

def hexCode (n : Nat) : Nat := if n < 10 then 0x30 + n else 0x37 + n

theorem encodeChar_hexDigit {n : Nat} (h : n < 16) :
    Utf8.encodeChar (hexDigit n) = [.ofNat (hexCode n)] := by
  unfold hexDigit hexCode
  split <;> rw [encodeChar_ofNat (by omega)]

theorem hexValue?_hexCode {n : Nat} (h : n < 16) : hexValue? (.ofNat (hexCode n)) = some n := by
  have hc : hexCode n < 256 := by unfold hexCode; split <;> omega
  unfold hexValue?
  rw [Utf8.toNat_ofNat_of_lt hc]
  grind [hexCode]

/-- A byte is read back from its escape, whatever follows. -/
theorem unescape_escapeByte (b : UInt8) (bs : List UInt8) :
    unescape (Utf8.encode (escapeByte b) ++ bs) = b :: unescape bs := by
  have hb := b.toNat_lt
  have hof : UInt8.ofNat b.toNat = b := by simp
  unfold escapeByte
  split
  · rename_i h
    have hs : b.toNat < 128 ∧ b.toNat ≠ 0x2B ∧ b.toNat ≠ 0x25 := by
      unfold isSafe at h
      grind
    simp only [Utf8.encode_cons, Utf8.encode_nil, encodeChar_ofNat hs.1, hof, List.append_nil,
      List.singleton_append]
    exact unescape_plain bs hs.2.1 hs.2.2
  split
  · rename_i h
    have hb : b = 0x20 := by rw [← hof, eq_of_beq h]; rfl
    rw [hb]
    exact unescape_plus bs
  · have hx := hexValue?_hexCode (n := b.toNat / 16) (by omega)
    have hy := hexValue?_hexCode (n := b.toNat % 16) (by omega)
    have hp : Utf8.encodeChar '%' = [0x25] := rfl
    simp only [Utf8.encode_cons, Utf8.encode_nil, hp,
      encodeChar_hexDigit (n := b.toNat / 16) (by omega),
      encodeChar_hexDigit (n := b.toNat % 16) (by omega), List.append_nil, List.cons_append,
      List.nil_append]
    rw [unescape_hex bs hx hy, show 16 * (b.toNat / 16) + b.toNat % 16 = b.toNat by omega, hof]

theorem unescape_escape (cs : List Char) (bs : List UInt8) :
    unescape (Utf8.encode (escape cs) ++ bs) = Utf8.encode cs ++ unescape bs := by
  unfold escape
  induction Utf8.encode cs with
  | nil => rfl
  | cons a as ih =>
    simp only [List.flatMap_cons, Utf8.encode_append, List.append_assoc, unescape_escapeByte, ih,
      List.cons_append]

/-- Any text is read back from its escape. -/
theorem unescapeText_escape (s : String) : unescapeText (Utf8.encode (escape s.toList)) = s := by
  have h := unescape_escape s.toList []
  rw [List.append_nil, show unescape [] = [] from rfl, List.append_nil] at h
  simp [unescapeText, h, Utf8.decode_encode]

/-- The bytes of an escape hold no separator. -/
theorem mem_escape {cs : List Char} {b : UInt8} (h : b ∈ Utf8.encode (escape cs)) :
    b.toNat ≠ 0x26 ∧ b.toNat ≠ 0x3D := by
  unfold escape at h
  revert h
  induction Utf8.encode cs with
  | nil => simp
  | cons a as ih =>
    intro h
    simp only [List.flatMap_cons, Utf8.encode_append, List.mem_append] at h
    rcases h with h | h
    · have ha := a.toNat_lt
      unfold escapeByte at h
      split at h
      · rename_i hs
        have hs' : a.toNat < 128 ∧ a.toNat ≠ 0x26 ∧ a.toNat ≠ 0x3D := by
          unfold isSafe at hs
          grind
        simp only [Utf8.encode_cons, Utf8.encode_nil, encodeChar_ofNat hs'.1, List.append_nil,
          List.mem_singleton] at h
        subst h
        simpa using hs'.2
      split at h
      · rw [show Utf8.encode ['+'] = [0x2B] from rfl, List.mem_singleton] at h
        subst h
        decide
      · have hp : Utf8.encodeChar '%' = [0x25] := rfl
        simp only [Utf8.encode_cons, Utf8.encode_nil, hp,
          encodeChar_hexDigit (n := a.toNat / 16) (by omega),
          encodeChar_hexDigit (n := a.toNat % 16) (by omega), List.append_nil, List.cons_append,
          List.nil_append, List.mem_cons, List.not_mem_nil, or_false] at h
        have hc : ∀ n, n < 16 → hexCode n < 256 ∧ hexCode n ≠ 0x26 ∧ hexCode n ≠ 0x3D := by
          intro n hn
          unfold hexCode
          grind
        rcases h with rfl | rfl | rfl
        · decide
        · have := hc (a.toNat / 16) (by omega)
          rw [Utf8.toNat_ofNat_of_lt this.1]
          exact this.2
        · have := hc (a.toNat % 16) (by omega)
          rw [Utf8.toNat_ofNat_of_lt this.1]
          exact this.2
    · exact ih h

theorem encode_renderPair (p : Pair) :
    Utf8.encode (renderPair p) =
      Utf8.encode (escape p.1.toList) ++ 0x3D :: Utf8.encode (escape p.2.toList) := by
  simp only [renderPair, Utf8.encode_append, Utf8.encode_cons]
  rfl

theorem readPair_renderPair (p : Pair) : readPair (Utf8.encode (renderPair p)) = p := by
  have hk : ∀ b ∈ Utf8.encode (escape p.1.toList), (!(b.toNat == 0x3D)) = true := fun b hb => by
    simpa using (mem_escape hb).2
  simp only [readPair, encode_renderPair, List.takeWhile_append_of_pos hk,
    List.dropWhile_append_of_pos hk]
  simp [unescapeText_escape]

theorem encode_intercalate (ps : List Pair) :
    Utf8.encode (['&'].intercalate (ps.map renderPair)) =
      [0x26].intercalate (ps.map fun p => Utf8.encode (renderPair p)) := by
  induction ps with
  | nil => rfl
  | cons p ps ih =>
    cases ps with
    | nil => simp
    | cons q ps =>
      simp only [List.map_cons, List.intercalate_cons_cons, Utf8.encode_append] at ih ⊢
      rw [ih]
      rfl

theorem splitOnP_intercalate (ps : List Pair) (h : ps ≠ []) :
    ([0x26].intercalate (ps.map fun p => Utf8.encode (renderPair p))).splitOnP
      (fun b : UInt8 => b.toNat == 0x26) = ps.map fun p => Utf8.encode (renderPair p) := by
  have hm : ∀ p : Pair, ∀ b ∈ Utf8.encode (renderPair p), (b.toNat == 0x26) = false := by
    intro p b hb
    rw [encode_renderPair, List.mem_append, List.mem_cons] at hb
    rcases hb with hb | rfl | hb
    · simpa using (mem_escape hb).1
    · rfl
    · simpa using (mem_escape hb).1
  induction ps with
  | nil => exact absurd rfl h
  | cons p ps ih =>
    cases ps with
    | nil => simpa using List.splitOnP_eq_singleton (hm p)
    | cons q ps =>
      have ih := ih (by simp)
      simp only [List.map_cons, List.intercalate_cons_cons, List.append_assoc] at ih ⊢
      rw [List.singleton_append, List.splitOnP_append_cons_of_forall_mem (hm p) _ rfl, ih]

/-- Pairs are read back from what was written. -/
theorem parse_render (ps : List Pair) : parse (render ps).toList = ps := by
  unfold parse render
  rw [String.toList_ofList, encode_intercalate]
  by_cases h : ps = []
  · subst h
    simp
  rw [splitOnP_intercalate ps h, List.filter_eq_self.2]
  · simp [readPair_renderPair, Function.comp_def]
  · intro bs hbs
    obtain ⟨p, -, rfl⟩ := List.mem_map.1 hbs
    simp [encode_renderPair]

end Form
end ListQuery
