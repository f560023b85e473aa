import ZephyrApp.Nrf24CryptFrames

/-!
# Which frames the cipher's window takes

A receiver that has taken a frame takes another one exactly if a counter among the next
thirty-two has the low byte that the frame carries. There is then one such counter, also
where the low byte or the whole counter wraps around, and it becomes the last one.
-/

namespace ZephyrApp.Nrf24Window

open MachineBytes SequenceWindow Nrf24Crypt

/-- `RX_WINDOW`. -/
def rxWindow : ℕ := 32

variable {s : CryptState}

/-- The two branches of the reconstruction find the counter in the window, if there is
one. -/
theorem inferCounter_eq_some_iff (h : s.rxInitialized=true) (ctrByte : Byte) (c : Word) :
    inferCounter s ctrByte=some c ↔ Ahead rxWindow s.rxCounter ctrByte c := by
  have hdist : (lowDistance s.rxCounter ctrByte=0 ∨ 32#8 < lowDistance s.rxCounter ctrByte) ↔
      ¬(1≤(lowDistance s.rxCounter ctrByte).toNat ∧
        (lowDistance s.rxCounter ctrByte).toNat≤rxWindow) := by
    have hzero : lowDistance s.rxCounter ctrByte=0 ↔
        (lowDistance s.rxCounter ctrByte).toNat=0 :=
      ⟨fun heq => by rw [heq]; rfl,fun heq => BitVec.eq_of_toNat_eq heq⟩
    have hhigh : 32#8 < lowDistance s.rxCounter ctrByte ↔
        32 < (lowDistance s.rxCounter ctrByte).toNat := BitVec.lt_def
    rw [hzero,hhigh,rxWindow]
    omega
  rw [ahead_iff (by decide) (by decide),inferCounter_window h]
  by_cases hout : lowDistance s.rxCounter ctrByte=0 ∨ 32#8 < lowDistance s.rxCounter ctrByte
  · rw [if_pos hout]
    exact iff_of_false (Option.some_ne_none c).symm fun hin => hdist.mp hout hin.1
  · rw [if_neg hout,Option.some_inj,eq_comm]
    exact (and_iff_right (not_not.mp (mt hdist.mpr hout))).symm

/-- Without such a counter there is nothing to infer. -/
theorem inferCounter_eq_none_iff (h : s.rxInitialized=true) (ctrByte : Byte) :
    inferCounter s ctrByte=none ↔ ¬∃ c,Ahead rxWindow s.rxCounter ctrByte c := by
  rw [Option.eq_none_iff_forall_ne_some,not_exists]
  exact forall_congr' fun c => not_congr (inferCounter_eq_some_iff h ctrByte c)

/-- A frame is taken exactly if its length is legal and a counter of the window has its
low byte. That counter is the only one and becomes the last; the length of the plaintext
is returned. A frame that is not taken changes nothing. -/
theorem nrf24CryptOpen_window (h : s.rxInitialized=true) (buf : List Byte) (frameLen : ℕ) :
    ((nrf24CryptOpen s buf frameLen).ret≠0 ↔
        (3≤frameLen ∧ frameLen≤32) ∧ ∃ c,Ahead rxWindow s.rxCounter (buf.getD 0 0) c) ∧
      ((nrf24CryptOpen s buf frameLen).ret≠0 →
        ∃ c,(∀ c',Ahead rxWindow s.rxCounter (buf.getD 0 0) c' ↔ c'=c) ∧
          (nrf24CryptOpen s buf frameLen).ret=frameLen-1 ∧
          (nrf24CryptOpen s buf frameLen).state={s with rxCounter := c,rxInitialized := true}) ∧
      ((nrf24CryptOpen s buf frameLen).ret=0 →
        (nrf24CryptOpen s buf frameLen).buf=buf ∧
          (nrf24CryptOpen s buf frameLen).state=s) := by
  by_cases hlen : frameLen < 3 ∨ 32 < frameLen
  · have hopen : nrf24CryptOpen s buf frameLen=⟨0,buf,s⟩ := by
      rw [nrf24CryptOpen,if_pos hlen]
    rw [hopen]
    exact ⟨⟨fun hne => absurd rfl hne,fun hin => absurd hin.1 (by omega)⟩,
      fun hne => absurd rfl hne,fun _ => ⟨rfl,rfl⟩⟩
  · cases hctr : inferCounter s (buf.getD 0 0) with
    | none =>
      have hnone := (inferCounter_eq_none_iff h (buf.getD 0 0)).mp hctr
      rw [nrf24CryptOpen_rejects s frameLen hctr]
      exact ⟨⟨fun hne => absurd rfl hne,fun hin => absurd hin.2 hnone⟩,
        fun hne => absurd rfl hne,fun _ => ⟨rfl,rfl⟩⟩
    | some c =>
      have hahead := (inferCounter_eq_some_iff h (buf.getD 0 0) c).mp hctr
      have hunique : ∀ c',Ahead rxWindow s.rxCounter (buf.getD 0 0) c' ↔ c'=c := by
        intro c'
        rw [←inferCounter_eq_some_iff h,hctr,Option.some_inj,eq_comm]
      have hret : (nrf24CryptOpen s buf frameLen).ret=frameLen-1 := by
        rw [nrf24CryptOpen,if_neg hlen,hctr]
      have hstate : (nrf24CryptOpen s buf frameLen).state=
          {s with rxCounter := c,rxInitialized := true} := by
        rw [nrf24CryptOpen,if_neg hlen,hctr]
      have hne : (nrf24CryptOpen s buf frameLen).ret≠0 := by
        rw [hret]
        omega
      exact ⟨iff_of_true hne ⟨by omega,c,hahead⟩,fun _ => ⟨c,hunique,hret,hstate⟩,
        fun hzero => absurd hzero hne⟩

/-- The last counter of the 32-bit range, and a frame of three bytes. -/
theorem nrf24CryptOpen_window_wraps :
    (nrf24CryptOpen {CryptState.boot with rxCounter := 0xFFFFFFFF,rxInitialized := true}
        [5,1,2] 3).ret≠0 ∧
      (nrf24CryptOpen {CryptState.boot with rxCounter := 0xFFFFFFFF,rxInitialized := true}
        [5,1,2] 3).state.rxCounter=5 := by
  have hwindow := nrf24CryptOpen_window
    (s := {CryptState.boot with rxCounter := 0xFFFFFFFF,rxInitialized := true}) rfl [5,1,2] 3
  have hahead : Ahead rxWindow 0xFFFFFFFF#32 5#8 5#32 := ⟨by decide,6,by decide,by decide,by decide⟩
  have hne := hwindow.1.mpr ⟨by decide,5,hahead⟩
  obtain ⟨c,hunique,-,hstate⟩ := hwindow.2.1 hne
  refine ⟨hne,?_⟩
  rw [hstate]
  exact ((hunique 5).mp hahead).symm

end ZephyrApp.Nrf24Window
