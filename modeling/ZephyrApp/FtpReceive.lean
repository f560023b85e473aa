import ZephyrApp.FtpServer

/-!
# What the FTP server takes for granted of its input

The receive loop counts on two bytes at least, and many commands count on a
parameter or on separators that a line need not have. What a line lacks is told
from the state of its session, its command and what stands in the buffer behind
the parameter.
-/

namespace ZephyrApp.FtpReceive

open EventRuns MachineBytes FtpPath FtpCommands FtpNeeds FtpServer
open FtpSession (ascii)

/-- A command lacks a parameter that its function reads, or a separator that it
writes to. -/
def Lacks (c : Call) : Prop :=
  match need c with
  | .param | .path => c.param=none
  | .bars => ∀ k∈c.param,c.data[k+1]?=some 0x31 ∧ (cString (c.data.drop (k+3))).count 0x7C < 2
  | _ => False

/-- While the server runs it is sound, and the run did not end with an index
outside `data_buf`, a read of an absent parameter or a write to an absent separator. -/
def Total : Service → Prop := SoundFree (·≠.overrun)

/-- A result of `recv` has two bytes at least, and its command all that it reads. -/
def Supplied : Service → Event → Prop
  | .live f,.recv i r o =>
    0 < (f.slots i).fd → 2≤r.rc ∧ ¬Lacks (callOf (f.slots i) f.dataBuf r o)
  | _,_ => True

/-- A command faults other than at the end of a path buffer exactly if it lacks
something. -/
theorem faultOf_lacks_iff (c : Call) :
    (∃ fault∈faultOf c (need c),fault≠.overrun) ↔ Lacks c := by
  rw [Lacks]
  cases need c with
  | nothing => simp [faultOf]
  | param => simp [faultOf]
  | parent => simp [faultOf]
  | path => cases hparam : c.param <;> simp [faultOf,hparam,Call.text]
  | bars => cases hparam : c.param <;> simp [faultOf,hparam]

/-- No event ends the run with such a fault exactly if it is supplied. -/
theorem spares_iff_supplied (s : Service) (e : Event) : Spares (·≠.overrun) s e ↔ Supplied s e := by
  cases s with
  | broken fault => exact Iff.rfl
  | live f =>
    cases e with
    | accept client => simp [Spares,Supplied,eventFault]
    | release i => simp [Spares,Supplied,eventFault]
    | recv i r o =>
      simp only [Spares,Supplied,eventFault,serveFault]
      by_cases hfd : 0 < (f.slots i).fd
      · by_cases hrc : r.rc < 2
        · simp [hfd,hrc]
        · simp only [hfd,hrc,if_true,if_false,←faultOf_lacks_iff,not_lt.mp hrc,true_imp_iff,
            true_and,not_exists,not_and]
      · simp [hfd]

/-- In every run of the server, `data_buf` is indexed inside its bounds only and
no absent parameter or separator is used exactly if every result of `recv` has
two bytes at least and every command all that its function reads. -/
theorem receive_total_iff (root : MountPoint) (es : List Event) :
    Throughout (next root) Total start es ↔ AlongRun (next root) Supplied start es := by
  rw [Total,throughout_free_iff]
  exact alongRun_congr (I := fun _ => True) (fun _ _ _ => trivial)
    (fun s e _ => spares_iff_supplied s e) trivial es

/-- The line `USER` without a parameter. -/
def bareUser : Segment := ⟨ascii ['U','S','E','R']++[0x0D,0x0A],by decide,by decide⟩

/-- A new connection sends `USER` without a parameter, which is read all the same. -/
theorem bare_user_faults : ¬∀ es,Throughout (next lfs1) Total start es := by
  intro h
  have hfault : (finalState (next lfs1) start
      [.accept 4,.recv 0 (.bytes bareUser) allOk]).fault=some Fault.param := by
    decide +kernel
  obtain ⟨es,hes⟩ : ∃ es : List Event,es=[.accept 4,.recv 0 (.bytes bareUser) allOk] := ⟨_,rfl⟩
  have hlast := (h es).last
  rw [←hes] at hfault
  cases hend : finalState (next lfs1) start es with
  | live f =>
    rw [hend] at hfault
    cases hfault
  | broken fault =>
    rw [hend] at hfault hlast
    obtain rfl := Option.some.inj hfault
    exact hlast (by decide)

end ZephyrApp.FtpReceive
