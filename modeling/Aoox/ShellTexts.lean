import Aoox.JsString
import Aoox.ShellRuns

/-! # Scripts as JavaScript strings

The scripts of the source are JavaScript strings, most of them of ASCII characters only.  Such
a string is its bytes (`script_eq_js`).
-/
namespace Aoox
open JsString

theorem cu_inj_of_ascii (a b : Char) (ha : a.toNat < 128) (hb : b.toNat < 128)
    (h : cu a = cu b) : a = b := by
  have hnat := congrArg UInt16.toNat h
  simp only [cu, Nat.toUInt16, UInt16.toNat_ofNat'] at hnat
  exact Char.toNat_inj.mp (by omega)

instance : Shell.Alphabet CodeUnit where
  sign := cu
  sign_inj := cu_inj_of_ascii

/-- The JavaScript string of an ASCII literal. -/
def script (text : String) : JsString := text.toByteArray.data.toList.map UInt8.toUInt16

theorem ascii_of_bytes {c : Char} (h : ∀ b ∈ String.utf8EncodeChar c, b.toNat < 128) :
    c.toNat < 128 := by
  by_contra hc
  have hval : ¬ c.val.toNat ≤ 0x7f := fun hle => hc (Nat.lt_succ_of_le hle)
  unfold String.utf8EncodeChar at h
  simp only [hval, if_false] at h
  split_ifs at h with h₁ h₂
  all_goals
    have hfirst := h _ (List.mem_cons_self ..)
    simp only [UInt8.toNat_ofNat'] at hfirst
    omega

theorem script_eq_js {text : String} (h : ∀ b ∈ text.toByteArray.data.toList, b.toNat < 128) :
    script text = js text := by
  obtain ⟨cs, rfl⟩ : ∃ cs, text = String.ofList cs := ⟨text.toList, String.ofList_toList.symm⟩
  have hbytes : (String.ofList cs).toByteArray.data.toList = cs.flatMap String.utf8EncodeChar := by
    rw [String.toByteArray_ofList, List.utf8Encode, List.toList_data_toByteArray]
  rw [hbytes] at h
  rw [script, js, hbytes, String.toList_ofList, List.map_flatMap]
  refine List.flatMap_congr fun c hc => ?_
  have hascii : c.toNat < 128 := ascii_of_bytes fun b hb => h b (List.mem_flatMap.mpr ⟨c, hc, hb⟩)
  have hencode : String.utf8EncodeChar c = [UInt8.ofNat c.toNat] := by
    rw [String.utf8EncodeChar]
    exact if_pos (Nat.le_of_lt_succ hascii)
  have hutf16 : utf16 c = [cu c] := by
    rw [utf16, if_pos (by omega)]
  rw [hencode, hutf16, List.map_cons, List.map_nil, cu]
  congr 1
  apply UInt16.toNat_inj.mp
  simp only [UInt8.toNat_toUInt16, UInt8.toNat_ofNat', Nat.toUInt16, UInt16.toNat_ofNat']
  omega

end Aoox
