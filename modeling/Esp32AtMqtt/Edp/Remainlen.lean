import Esp32AtMqtt.Edp.Read
import Esp32AtMqtt.Edp.Write

/-!
# The remaining length, written, read and scanned

Three loops of `EdpKit.c` deal with the length field of a packet: `WriteRemainlen` writes it,
`ReadRemainlen` reads it from a packet, and `IsPkgComplete` looks for its end in the bytes
received. The reader and the scan are compared on one list, the bytes behind the type byte:
both follow `takeRemainlen`, and where it finds no field the scan tells a field that may still
come from one that is too long.
-/

namespace Edp

open Base128

/-- `ReadRemainlen` finds what `WriteRemainlen` wrote, whatever is behind it. -/
theorem readRemainlen_encode {r : Reading} {lenVal : UInt32} {rest : List UInt8}
    (h : r.pkg.Held) (hlen : lenVal.toNat < 2 ^ 28)
    (hunread : r.pkg.unread = encode lenVal.toNat ++ rest) :
    ∃ r', readRemainlen r = .ok lenVal r' ∧ Consumed r r' rest 0 := by
  have hfour : (encode lenVal.toNat).length ≤ 4 :=
    (length_encode_le_iff 3 lenVal.toNat).mpr (by simpa using hlen)
  have htake : takeRemainlen r.pkg.unread = some (lenVal.toNat, rest) := by
    rw [hunread, takeRemainlen, takeRemainlenFrom_field rest (isField_encode _) 4 hfour,
      value_encode]
  have hread := answers_readRemainlen h fun hnone => by
    rw [htake] at hnone
    cases hnone
  rw [htake, Option.map_some, UInt32.ofNat_toNat] at hread
  generalize readRemainlen r = res at hread
  cases hread with
  | taken hc => exact ⟨_, rfl, hc⟩

theorem Consumed.readPos_eq {r r' : Reading} {f rest : List UInt8} {k : ℕ}
    (h : Consumed r r' rest k) (hheld : r.pkg.Held) (hunread : r.pkg.unread = f ++ rest) :
    r'.pkg.readPos.toNat = r.pkg.readPos.toNat + f.length := by
  have hsum := hheld.add_length_unread
  have hsum' := h.held.add_length_unread
  rw [hunread, List.length_append] at hsum
  rw [h.unread_eq, h.writePos_eq] at hsum'
  omega

/-- The scan and the reader on one length field: either neither finds it, or both know where it
ends and what it says. -/
theorem scan_readRemainlen {buf : Buffer} (htype : 1 ≤ buf.writePos)
    (hheld : buf.writePos.toNat ≤ buf.data.length) :
    (isPkgComplete buf ≤ 0 ∧
      ∃ e r, readRemainlen { buf with readPos := 1 }.reading = .error e r) ∨
    ∃ v r, readRemainlen { buf with readPos := 1 }.reading = .ok v r ∧
      isPkgComplete buf =
        completeAt (1 + (r.pkg.readPos.toNat - 1) + v.toNat) buf.writePos.toNat := by
  have hone : 1 ≤ buf.writePos.toNat := UInt32.le_iff_toNat_le.mp htype
  have hmany : buf.written.length = buf.writePos.toNat := by
    rw [Buffer.written, List.length_take, Nat.min_eq_left hheld]
  obtain ⟨t, q, hwritten⟩ := List.exists_cons_of_length_pos (by omega : 0 < buf.written.length)
  have hscan := isPkgComplete_take hheld hwritten
  have hpkg : ({ buf with readPos := 1 } : Buffer).Held := ⟨htype, hheld⟩
  have hunread : ({ buf with readPos := 1 } : Buffer).unread = q := by
    show buf.written.drop 1 = q
    rw [hwritten]
    rfl
  have hread := answers_readRemainlen (r := { buf with readPos := 1 }.reading) hpkg
    fun _ => (by decide : (1 : UInt32).toNat + 5 < 2 ^ 32)
  rw [hwritten, List.length_cons] at hmany
  simp only [Buffer.reading] at hread ⊢
  rw [hunread] at hread
  cases htake : takeRemainlen q with
  | none =>
      rw [htake] at hread hscan
      generalize readRemainlen _ = res at hread
      cases hread with
      | @refused e r' =>
          refine Or.inl ⟨?_, e, r', rfl⟩
          rw [hscan, scanAnswer]
          split_ifs <;> decide
  | some p =>
      obtain ⟨v, rest⟩ := p
      obtain ⟨f, hq, -, hlen, hv⟩ := takeRemainlenFrom_some htake
      have hpow : 128 ^ f.length ≤ 128 ^ 4 := Nat.pow_le_pow_right (by decide) hlen
      have hnat : (UInt32.ofNat v).toNat = v :=
        UInt32.toNat_ofNat_of_lt' (show v < 2 ^ 32 by omega)
      rw [htake] at hread hscan
      generalize readRemainlen _ = res at hread
      cases hread with
      | @taken _ _ r' hc =>
          have hpos := hc.readPos_eq (f := f) hpkg (hunread.trans hq)
          refine Or.inr ⟨_, r', rfl, ?_⟩
          rw [hscan, scanAnswer, hnat]
          rw [hq, List.length_append] at hmany
          have hpos' : r'.pkg.readPos.toNat = 1 + f.length := hpos
          congr 1
          omega

/-- The length fields are those of one code. What `WriteRemainlen` appends for a number below
`2^28` is read back by `ReadRemainlen` from any packet that has it in front. On any bytes with a
type byte in front, `IsPkgComplete` and `ReadRemainlen` behind the type byte agree: on the
length of a packet that is there, and on what is not a length field. -/
theorem remainlen_agree {w : Writing} {front : List UInt8} {lenVal : UInt32} (h : Built w front)
    (hlen : lenVal.toNat < 2 ^ 28)
    (hroom : front.length + (encode lenVal.toNat).length ≤ w.pkg.capacity.toNat)
    {buf : Buffer} (htype : 1 ≤ buf.writePos) (hheld : buf.writePos.toNat ≤ buf.data.length) :
    (∃ field, (writeRemainlen lenVal w).2.pkg.written = front ++ field ∧
      ∀ (pkg : Buffer) (rest : List UInt8), pkg.Held → pkg.unread = field ++ rest →
        ∃ r, readRemainlen pkg.reading = .ok lenVal r ∧ r.pkg.unread = rest ∧
          r.pkg.readPos.toNat = pkg.readPos.toNat + field.length) ∧
    (0 < isPkgComplete buf →
      ∃ v r, readRemainlen { buf with readPos := 1 }.reading = .ok v r ∧
        isPkgComplete buf = ((1 + (r.pkg.readPos.toNat - 1) + v.toNat : ℕ) : ℤ)) ∧
    (isPkgComplete buf = -1 →
      ∃ e r, readRemainlen { buf with readPos := 1 }.reading = .error e r) ∧
    ∀ v r, readRemainlen { buf with readPos := 1 }.reading = .ok v r →
      1 + (r.pkg.readPos.toNat - 1) + v.toNat ≤ buf.writePos.toNat →
      isPkgComplete buf = ((1 + (r.pkg.readPos.toNat - 1) + v.toNat : ℕ) : ℤ) := by
  refine ⟨⟨encode lenVal.toNat, (h.writeRemainlen lenVal hroom).written_eq, ?_⟩, ?_⟩
  · intro pkg rest hpkg hunread
    obtain ⟨r, hread, hc⟩ := readRemainlen_encode (r := pkg.reading) hpkg hlen hunread
    exact ⟨r, hread, hc.unread_eq, hc.readPos_eq hpkg hunread⟩
  · rcases scan_readRemainlen htype hheld with ⟨hscan, e, r, hread⟩ | ⟨v, r, hread, hscan⟩
    · refine ⟨fun hpos => absurd hpos (Int.not_lt.mpr hscan), fun _ => ⟨e, r, hread⟩, ?_⟩
      intro v r' hok
      rw [hread] at hok
      nomatch hok
    · rw [completeAt] at hscan
      refine ⟨?_, ?_, ?_⟩
      · intro hpos
        rw [hscan] at hpos
        split_ifs at hpos with hin
        · rw [if_pos hin] at hscan
          exact ⟨v, r, hread, hscan⟩
        · exact absurd hpos (Int.lt_irrefl 0)
      · intro herr
        rw [hscan] at herr
        split_ifs at herr
      · intro v' r' hok hin
        rw [hread] at hok
        injection hok with hv hr
        subst hv hr
        rw [hscan, if_pos hin]

/-- A packet with one byte behind the length field. -/
def threeBytes : Buffer := ⟨[0x40, 1, 7], 3, 0, 3⟩

theorem remainlen_agree_threeBytes :
    (∃ field, (writeRemainlen 300 (newWriting zeroMemory)).2.pkg.written = [] ++ field) ∧
      ∃ v r, readRemainlen { threeBytes with readPos := 1 }.reading = .ok v r ∧
        isPkgComplete threeBytes = ((1 + (r.pkg.readPos.toNat - 1) + v.toNat : ℕ) : ℤ) := by
  have h := remainlen_agree (built_newWriting zeroMemory)
    (by decide : (300 : UInt32).toNat < 2 ^ 28) (by simp [encode, newWriting, newBuffer, bufferSize])
    (by decide : 1 ≤ threeBytes.writePos) (by decide)
  obtain ⟨field, hfield, -⟩ := h.1
  exact ⟨⟨field, hfield⟩, h.2.1 (by decide)⟩

end Edp
