import ZephyrApp.UdpFwUpgrade
import ZephyrApp.EventRuns

/-!
# Upgrade sessions over UDP

Runs of the command handler over arbitrary commands. An upload record is kept
beside the statics: what the last accepted start announced and the bytes
accepted since. A boot is requested for a complete upload exactly when the
counters agree, which the library never asks. On a faultless device the
handler carries out an abstract session, a list of the bytes uploaded so far:
it answers as the session does, and its verdict is the checksum of that list.
-/

namespace ZephyrApp.UdpFwUpgrade

open MachineBytes FlashSlots FlashReadback Crc16 EventRuns
open CanFwUpgrade (FwConfig FlashCall fwKeyhashKeyLen)

section Completeness

/-- What has been uploaded since the last accepted start. -/
structure Transfer where
  /-- The size it announced. -/
  announced : Word
  /-- The bytes accepted since. -/
  accepted : List Byte

/-- Keep the upload over one command: an accepted start begins a new one, and
accepted data is appended. -/
def noteTransfer (transfer : Option Transfer) (c : UdpCmd) (actions : List UdpAction) :
    Option Transfer :=
  if c.cmd=fwCmdStart ∧ .reply fwCmdStart [fwStartOk]∈actions then
    some ⟨sysGetLe32 c.data 0,[]⟩
  else if c.cmd=fwCmdData ∧ .flash (.imgWrite c.data) true∈actions then
    transfer.map fun t => {t with accepted := t.accepted++c.data}
  else transfer

/-- The library with the upload record. -/
structure UdpRun (δ : Type) where
  /-- The statics and the device. -/
  fw : UdpState δ
  /-- The upload since the last accepted start. -/
  transfer : Option Transfer

/-- A run from boot, with nothing recorded. -/
def UdpRun.boot {δ : Type} (device : δ) : UdpRun δ := ⟨.boot device,none⟩

variable {δ : Type} (F : ReadableImage δ) (cfg : FwConfig)

/-- One command, recorded. -/
def udpStep (r : UdpRun δ) (c : UdpCmd) : UdpRun δ :=
  ⟨(handleFwCmd F cfg r.fw c).state,
    noteTransfer r.transfer c (handleFwCmd F cfg r.fw c).actions⟩

/-- A requested boot is for a complete upload. -/
def BootComplete (r : UdpRun δ) (c : UdpCmd) : Prop :=
  (∃ permanent ok,UdpAction.bootRequest permanent ok∈(handleFwCmd F cfg r.fw c).actions) →
    ∃ t∈r.transfer,t.accepted.length=t.announced.toNat

/-- An end command that finds a session and passes the checksum finds as many
bytes received as announced. -/
def SizeReached (r : UdpRun δ) (c : UdpCmd) : Prop :=
  c.cmd=fwCmdEnd → 3≤c.data.length → r.fw.started=true →
    (fwVerifyCrc F (F.imgFlush r.fw.device).2 (sysGetLe16 c.data 1)).1=true →
      r.fw.received=r.fw.size

instance (r : UdpRun δ) (c : UdpCmd) : Decidable (SizeReached F r c) :=
  inferInstanceAs (Decidable (c.cmd=fwCmdEnd → 3≤c.data.length → r.fw.started=true →
    (fwVerifyCrc F (F.imgFlush r.fw.device).2 (sysGetLe16 c.data 1)).1=true →
      r.fw.received=r.fw.size))

/-- An open session counts the bytes of the recorded upload. -/
def Counting (r : UdpRun δ) : Prop :=
  r.fw.started=true → ∃ t∈r.transfer,t.announced=r.fw.size ∧
    F.Holding r.fw.device t.accepted.length ∧
    r.fw.received=BitVec.ofNat 32 t.accepted.length

variable {F cfg}

/-- A start command keeps the count: it opens a session with nothing counted,
or leaves the statics of an open one alone. -/
theorem start_counting (hF : F.Counted) {r : UdpRun δ} {c : UdpCmd} (hc : c.cmd=fwCmdStart)
    (hr : Counting F r) : Counting F (udpStep F cfg r c) := by
  have hcase := handleStart_cases F cfg r.fw c.data
  have hrun : handleFwCmd F cfg r.fw c=handleStart F cfg r.fw c.data := by
    rw [handleFwCmd,if_pos hc]
  have hdata : ¬c.cmd=fwCmdData := by
    rw [hc]
    decide
  unfold udpStep noteTransfer
  rw [hrun]
  generalize handleStart F cfg r.fw c.data=report at hcase
  cases hcase with
  | refused why =>
    have hno : ¬UdpAction.reply fwCmdStart [fwStartOk]∈
        [UdpAction.reply fwCmdStart [fwStartErrFail]] := by decide
    simp only [hno,hdata,and_false,false_and,if_false]
    exact hr
  | mismatch closed long key =>
    intro hopen
    exact absurd (closed.symm.trans hopen) Bool.false_ne_true
  | failed state calls closed flash fault =>
    intro hopen
    exact absurd (closed.symm.trans hopen) Bool.false_ne_true
  | opened device closed long key init =>
    intro _
    refine ⟨⟨sysGetLe32 c.data 0,[]⟩,?_,rfl,hF.init_ok _ init,rfl⟩
    simp only [hc,List.mem_cons,true_or,or_true,and_self,if_true,Option.mem_def]

/-- A data command keeps the count: accepted bytes are recorded and counted,
and a failed write closes the session. -/
theorem data_counting (hF : F.Counted) {r : UdpRun δ} {c : UdpCmd} (hc : c.cmd=fwCmdData)
    (hr : Counting F r) : Counting F (udpStep F cfg r c) := by
  have hne : ¬fwCmdData=fwCmdStart := by decide
  have hrun : handleFwCmd F cfg r.fw c=handleData F r.fw c.data := by
    simp only [handleFwCmd,hc,hne,if_false,if_true]
  unfold udpStep noteTransfer
  rw [hrun]
  by_cases hgo : r.fw.started=true ∧ c.data≠[]
  · obtain ⟨hopen,hdata⟩ := hgo
    rw [handleData_written F r.fw hopen hdata]
    obtain ⟨t,ht,hannounced,hholding,hreceived⟩ := hr hopen
    split
    · rename_i hok
      intro _
      rw [Option.mem_def] at ht
      refine ⟨{t with accepted := t.accepted++c.data},?_,hannounced,?_,?_⟩
      · simp only [hc,hne,ht,List.mem_cons,true_or,false_and,and_self,if_false,if_true,
          Option.map_some,Option.mem_def]
      · dsimp only
        rw [List.length_append]
        exact hF.write_ok _ _ _ hholding hok
      · dsimp only
        rw [hreceived,List.length_append,BitVec.ofNat_add]
    · intro hopen'
      exact absurd hopen' Bool.false_ne_true
  · have hrefused : r.fw.started=false ∨ c.data=[] := by
      rw [not_and_or,Bool.not_eq_true,not_not] at hgo
      exact hgo
    rw [handleData_refused F r.fw hrefused]
    have hno : ¬UdpAction.flash (.imgWrite c.data) true∈
        [UdpAction.reply fwCmdData (sysPutLe32 0)] := by simp
    simp only [hc,hne,hno,and_false,false_and,if_false]
    exact hr

/-- Every command keeps the count. -/
theorem counting_step (hF : F.Counted) (r : UdpRun δ) (c : UdpCmd) (hr : Counting F r) :
    Counting F (udpStep F cfg r c) := by
  by_cases hstart : c.cmd=fwCmdStart
  · exact start_counting hF hstart hr
  · by_cases hdata : c.cmd=fwCmdData
    · exact data_counting hF hdata hr
    · simp only [udpStep,noteTransfer,hstart,hdata,handleFwCmd,false_and,if_false]
      split
      · by_cases hlong : 3≤c.data.length
        · intro hopen
          have hclosed := handleEnd_closed F r.fw c.data hlong
          exact absurd (hclosed.symm.trans hopen) Bool.false_ne_true
        · rw [handleEnd_refused F r.fw (Or.inr (by omega))]
          exact hr
      · split
        · exact hr
        · split
          · intro hopen
            exact absurd hopen Bool.false_ne_true
          · exact hr

/-- At a command of a counting session, a requested boot is for a complete
upload exactly when the announced size has been reached. -/
theorem bootComplete_iff_sizeReached (hF : F.Counted) (r : UdpRun δ) (c : UdpCmd)
    (hr : Counting F r) : BootComplete F cfg r c ↔ SizeReached F r c := by
  unfold BootComplete SizeReached
  rw [bootRequest_iff]
  constructor
  · intro h hc hlong hopen hverify
    obtain ⟨t,ht,hlength⟩ := h ⟨hc,hlong,hopen,hverify⟩
    obtain ⟨t',ht',hannounced,-,hreceived⟩ := hr hopen
    rw [Option.mem_unique ht' ht] at hannounced hreceived
    rw [hreceived,hlength,BitVec.ofNat_toNat,BitVec.setWidth_eq,hannounced]
  · rintro h ⟨hc,hlong,hopen,hverify⟩
    obtain ⟨t,ht,hannounced,hholding,hreceived⟩ := hr hopen
    refine ⟨t,ht,?_⟩
    have hle := hF.holding_le _ _ hholding
    have hlt := hF.slotSize_lt
    rw [hannounced,←h hc hlong hopen hverify,hreceived,BitVec.toNat_ofNat,
      Nat.mod_eq_of_lt (by omega)]

/-- From boot on, boots are requested for complete uploads only, in exactly
those runs in which every end command that passes the checksum finds the
announced size reached. -/
theorem bootComplete_runs (hF : F.Counted) (device : δ) (commands : List UdpCmd) :
    AlongRun (udpStep F cfg) (BootComplete F cfg) (.boot device) commands ↔
      AlongRun (udpStep F cfg) (SizeReached F) (.boot device) commands :=
  alongRun_congr (counting_step hF) (bootComplete_iff_sizeReached hF)
    (fun hopen => absurd hopen Bool.false_ne_true) commands

/-- An upload of eight bytes that is complete. -/
theorem bootComplete_runs_eight :
    AlongRun (udpStep (bufferedFlash 64) .plain) (BootComplete (bufferedFlash 64) .plain)
      (.boot ⟨List.replicate 64 0,none,0⟩)
      [⟨fwCmdStart,[8,0,0,0]⟩,⟨fwCmdData,List.replicate 8 1⟩,⟨fwCmdEnd,[0,0x33,0x5F]⟩] :=
  (bootComplete_runs (bufferedFlash_counted (by decide)) _ _).mpr (by decide +kernel)

/-- An end right after a start, with the checksum of no bytes, requests a boot
of an upload of eight bytes of which none has come. -/
theorem bootComplete_fails :
    ¬AlongRun (udpStep (bufferedFlash 64) .plain) (BootComplete (bufferedFlash 64) .plain)
      (.boot ⟨List.replicate 64 0,none,0⟩)
      [⟨fwCmdStart,[8,0,0,0]⟩,⟨fwCmdEnd,[0,0,0]⟩] := by
  rintro ⟨-,hboot,-⟩
  obtain ⟨t,ht,hlength⟩ := hboot ⟨1,true,by decide +kernel⟩
  have hlatest : t=⟨8,[]⟩ := Option.mem_unique ht rfl
  rw [hlatest] at hlength
  revert hlength
  decide

end Completeness

section Verdict

/-- The status a start command is answered with in a session. -/
def startStatus (cfg : FwConfig) (session : Option (List Byte)) (data : List Byte) : Byte :=
  if session.isSome=true ∨ data.length<4 then fwStartErrFail
  else if keyhashMismatch cfg data=true then fwStartErrKeyhash else fwStartOk

/-- The session, a list of the bytes uploaded so far, after a command. -/
def sessionNext (cfg : FwConfig) (session : Option (List Byte)) (c : UdpCmd) :
    Option (List Byte) :=
  if c.cmd=fwCmdStart then
    if startStatus cfg session c.data=fwStartOk then some [] else session
  else if c.cmd=fwCmdData then session.map (·++c.data)
  else if c.cmd=fwCmdEnd then if 3≤c.data.length then none else session
  else if c.cmd=fwCmdReboot then none
  else session

/-- The verdict of an end command: the session's checksum is the one given. -/
def endPasses (session : Option (List Byte)) (data : List Byte) : Bool :=
  match session with
  | none => false
  | some image => decide (3≤data.length ∧ crc16Ccitt 0 image=sysGetLe16 data 1)

/-- The answer to a data command: the running total, zero when refused. -/
def dataTotal (session : Option (List Byte)) (data : List Byte) : Word :=
  match session with
  | none => 0
  | some image => if data=[] then 0 else BitVec.ofNat 32 (image.length+data.length)

/-- What is seen of a command from outside: its reply, and whether a boot is
requested, with the outcome of the request. -/
def sessionReplies (cfg : FwConfig) (session : Option (List Byte)) (c : UdpCmd) (bootOk : Bool) :
    List UdpAction :=
  if c.cmd=fwCmdStart then [.reply fwCmdStart [startStatus cfg session c.data]]
  else if c.cmd=fwCmdData then [.reply fwCmdData (sysPutLe32 (dataTotal session c.data))]
  else if c.cmd=fwCmdEnd then
    if endPasses session c.data=true then
      [.bootRequest (permanentOf c.data) bootOk,.reply fwCmdEnd [if bootOk then 1 else 0]]
    else [.reply fwCmdEnd [0]]
  else if c.cmd=fwCmdGetVersion then [.reply fwCmdGetVersion cfg.version]
  else if c.cmd=fwCmdReboot then [.reply fwCmdReboot [],.reboot]
  else []

/-- The calls that write the slot are not seen from outside. -/
def UdpAction.isVisible : UdpAction → Bool
  | .flash _ _ => false
  | _ => true

/-- The library with the session it carries out. -/
structure UdpUpload (δ : Type) where
  /-- The statics and the device. -/
  fw : UdpState δ
  /-- The bytes uploaded in the open session. -/
  session : Option (List Byte)

/-- A run from boot, with no session. -/
def UdpUpload.boot {δ : Type} (device : δ) : UdpUpload δ := ⟨.boot device,none⟩

variable {δ : Type} (F : ReadableImage δ) (cfg : FwConfig)

/-- One command, carried out by the library and by the session. -/
def uploadStep (r : UdpUpload δ) (c : UdpCmd) : UdpUpload δ :=
  ⟨(handleFwCmd F cfg r.fw c).state,sessionNext cfg r.session c⟩

/-- The data of an open session finds room in the slot. -/
def FitsSlot (r : UdpUpload δ) (c : UdpCmd) : Prop :=
  c.cmd=fwCmdData → ∀ image∈r.session,image.length+c.data.length≤F.slotSize

instance (r : UdpUpload δ) (c : UdpCmd) : Decidable (FitsSlot F r c) :=
  inferInstanceAs
    (Decidable (c.cmd=fwCmdData → ∀ image∈r.session,image.length+c.data.length≤F.slotSize))

/-- The library answers a command as the session does. -/
structure Verdict (r : UdpUpload δ) (c : UdpCmd) : Prop where
  /-- What is seen from outside. -/
  replies : ∃ bootOk,
    (handleFwCmd F cfg r.fw c).actions.filter UdpAction.isVisible=
      sessionReplies cfg r.session c bootOk
  /-- A full end command is answered with one exactly when a session is open,
  its checksum is the one given and the requested boot is granted. -/
  granted : c.cmd=fwCmdEnd → 3≤c.data.length →
    (.reply fwCmdEnd [1]∈(handleFwCmd F cfg r.fw c).actions ↔
      (∃ image∈r.session,crc16Ccitt 0 image=sysGetLe16 c.data 1) ∧
        .bootRequest (permanentOf c.data) true∈(handleFwCmd F cfg r.fw c).actions)
  /-- The library has a session open exactly when the session is. -/
  opened : (handleFwCmd F cfg r.fw c).state.started=(sessionNext cfg r.session c).isSome

/-- The library carries out the session: it streams the bytes uploaded so far
over an erased slot, and counts them. -/
structure Carrying (r : UdpUpload δ) : Prop where
  /-- Both have a session open, or neither. -/
  started : r.fw.started=r.session.isSome
  /-- The device streams the session. -/
  streamed : ∀ image∈r.session,F.Streamed r.fw.device image ∧
    r.fw.received=BitVec.ofNat 32 image.length

variable {F cfg} {r : UdpUpload δ} {c : UdpCmd}

/-- What a command has to do for the session to be carried out. -/
def CarriesOut (F : ReadableImage δ) (cfg : FwConfig) (r : UdpUpload δ) (c : UdpCmd) : Prop :=
  Carrying F (uploadStep F cfg r c) ∧ ∃ bootOk,
    (handleFwCmd F cfg r.fw c).actions.filter UdpAction.isVisible=
      sessionReplies cfg r.session c bootOk

/-- A start command is carried out on a faultless device. -/
theorem start_carriesOut (hF : F.Lawful) (hfault : F.Faultless) (hc : c.cmd=fwCmdStart)
    (hr : Carrying F r) : CarriesOut F cfg r c := by
  have hrun : handleFwCmd F cfg r.fw c=handleStart F cfg r.fw c.data := by
    rw [handleFwCmd,if_pos hc]
  have hcase := handleStart_cases F cfg r.fw c.data
  have hstarted := hr.started
  unfold CarriesOut uploadStep sessionNext sessionReplies startStatus
  rw [hrun]
  generalize handleStart F cfg r.fw c.data=report at hcase
  cases hcase with
  | refused why =>
    rw [hstarted] at why
    simp only [hc,why,if_true,fwStartErrFail,fwStartOk,BitVec.reduceEq,if_false]
    exact ⟨hr,true,rfl⟩
  | mismatch closed long key =>
    rw [hstarted] at closed
    have hshort : ¬c.data.length<4 := by omega
    simp only [hc,closed,hshort,key,or_self,if_true,if_false,fwStartErrKeyhash,fwStartOk,
      Bool.false_eq_true,BitVec.reduceEq]
    exact ⟨⟨hstarted,hr.streamed⟩,true,rfl⟩
  | failed state calls closed flash fault =>
    obtain ⟨d,hd | hd⟩ := fault
    · exact absurd (hd.symm.trans (hfault.open_ok d)) Bool.false_ne_true
    · exact absurd (hd.symm.trans (hfault.init_ok d)) Bool.false_ne_true
  | opened device closed long key init =>
    rw [hstarted] at closed
    have hshort : ¬c.data.length<4 := by omega
    simp only [hc,closed,hshort,key,or_self,if_true,if_false,Bool.false_eq_true]
    refine ⟨⟨rfl,?_⟩,true,rfl⟩
    intro image himage
    rw [Option.mem_def,Option.some.injEq] at himage
    subst himage
    exact ⟨hF.init_ok _ (hF.erase_ok device (hfault.erase_ok device)) init,rfl⟩

/-- A data command with room in the slot is carried out on a faultless device. -/
theorem data_carriesOut (hF : F.Lawful) (hfault : F.Faultless) (hc : c.cmd=fwCmdData)
    (hfit : FitsSlot F r c) (hr : Carrying F r) : CarriesOut F cfg r c := by
  have hne : ¬fwCmdData=fwCmdStart := by decide
  have hrun : handleFwCmd F cfg r.fw c=handleData F r.fw c.data := by
    simp only [handleFwCmd,hc,hne,if_false,if_true]
  unfold CarriesOut uploadStep sessionNext sessionReplies dataTotal
  rw [hrun]
  simp only [hc,hne,if_true,if_false]
  cases hsession : r.session with
  | none =>
    have hclosed : r.fw.started=false := by rw [hr.started,hsession]; rfl
    rw [handleData_refused F r.fw (Or.inl hclosed)]
    exact ⟨⟨hclosed,fun image himage => absurd himage (Option.not_mem_none image)⟩,true,rfl⟩
  | some image =>
    have hopen : r.fw.started=true := by rw [hr.started,hsession]; rfl
    obtain ⟨hstream,hcount⟩ := hr.streamed image hsession
    by_cases hdata : c.data=[]
    · rw [handleData_refused F r.fw (Or.inr hdata)]
      simp only [hdata,List.append_nil,Option.map_some,if_true]
      refine ⟨⟨hopen,?_⟩,true,rfl⟩
      intro image' himage
      rw [Option.mem_def,Option.some.injEq] at himage
      subst himage
      exact ⟨hstream,hcount⟩
    · have hok := hfault.write_ok _ _ _ hstream (hfit hc image hsession)
      rw [handleData_written F r.fw hopen hdata,if_pos hok]
      simp only [hdata,Option.map_some,if_false]
      refine ⟨⟨hopen,?_⟩,true,?_⟩
      · intro image' himage
        rw [Option.mem_def,Option.some.injEq] at himage
        subst himage
        dsimp only
        rw [hcount,List.length_append,BitVec.ofNat_add]
        exact ⟨hF.write_ok _ _ _ hstream hok,rfl⟩
      · rw [hcount,←BitVec.ofNat_add]
        rfl

/-- An end command is carried out on a faultless device: the checksum read back
is the session's. -/
theorem end_carriesOut (hF : F.Lawful) (hfault : F.Faultless) (hback : F.ReadsBack)
    (hc : c.cmd=fwCmdEnd) (hr : Carrying F r) : CarriesOut F cfg r c := by
  have hne : ¬fwCmdEnd=fwCmdStart ∧ ¬fwCmdEnd=fwCmdData := by decide
  have hrun : handleFwCmd F cfg r.fw c=handleEnd F r.fw c.data := by
    simp only [handleFwCmd,hc,hne,if_false,if_true]
  unfold CarriesOut uploadStep sessionNext sessionReplies endPasses
  rw [hrun]
  simp only [hc,hne,if_true,if_false]
  by_cases hlong : 3≤c.data.length
  · cases hsession : r.session with
    | none =>
      have hclosed : r.fw.started=false := by rw [hr.started,hsession]; rfl
      rw [handleEnd_refused F r.fw (Or.inl hclosed),if_pos hlong]
      exact ⟨⟨hclosed,fun image himage => absurd himage (Option.not_mem_none image)⟩,true,rfl⟩
    | some image =>
      have hopen : r.fw.started=true := by rw [hr.started,hsession]; rfl
      obtain ⟨hstream,-⟩ := hr.streamed image hsession
      have hverify := fwVerifyCrc_flushed hF hback hfault hstream (sysGetLe16 c.data 1)
      have hgo : ¬(r.fw.started=false ∨ c.data.length<3) := by
        rw [hopen]
        simp only [Bool.true_eq_false,false_or]
        omega
      unfold handleEnd
      rw [if_neg hgo]
      dsimp only
      rw [hverify]
      by_cases hcrc : crc16Ccitt 0 image=sysGetLe16 c.data 1
      · simp only [hcrc,hlong,and_self,decide_true,Bool.true_eq_false,if_true,if_false]
        exact ⟨⟨rfl,fun image himage => absurd himage (Option.not_mem_none image)⟩,_,rfl⟩
      · simp only [hcrc,hlong,and_false,decide_false,Bool.false_eq_true,if_true,if_false]
        exact ⟨⟨rfl,fun image himage => absurd himage (Option.not_mem_none image)⟩,true,rfl⟩
  · rw [handleEnd_refused F r.fw (Or.inr (by omega))]
    simp only [hlong,if_false,false_and,decide_false]
    refine ⟨hr,true,?_⟩
    cases r.session <;> rfl

/-- Every command with room for its data is carried out. -/
theorem carriesOut (hF : F.Lawful) (hfault : F.Faultless) (hback : F.ReadsBack)
    (hfit : FitsSlot F r c) (hr : Carrying F r) : CarriesOut F cfg r c := by
  by_cases hstart : c.cmd=fwCmdStart
  · exact start_carriesOut hF hfault hstart hr
  · by_cases hdata : c.cmd=fwCmdData
    · exact data_carriesOut hF hfault hdata hfit hr
    · by_cases hend : c.cmd=fwCmdEnd
      · exact end_carriesOut hF hfault hback hend hr
      · unfold CarriesOut uploadStep sessionNext sessionReplies handleFwCmd
        simp only [hstart,hdata,hend,if_false]
        by_cases hversion : c.cmd=fwCmdGetVersion
        · have hne : ¬fwCmdGetVersion=fwCmdReboot := by decide
          simp only [hversion,hne,if_true,if_false]
          exact ⟨hr,true,rfl⟩
        · simp only [hversion,if_false]
          split
          · exact ⟨⟨rfl,fun image himage => absurd himage (Option.not_mem_none image)⟩,true,rfl⟩
          · exact ⟨hr,true,rfl⟩

/-- What is seen of a full end command decides whether it was granted. -/
theorem granted_of_replies (hc : c.cmd=fwCmdEnd) (hlong : 3≤c.data.length) {bootOk : Bool}
    (h : (handleFwCmd F cfg r.fw c).actions.filter UdpAction.isVisible=
      sessionReplies cfg r.session c bootOk) :
    .reply fwCmdEnd [1]∈(handleFwCmd F cfg r.fw c).actions ↔
      (∃ image∈r.session,crc16Ccitt 0 image=sysGetLe16 c.data 1) ∧
        .bootRequest (permanentOf c.data) true∈(handleFwCmd F cfg r.fw c).actions := by
  have hmem : ∀ a : UdpAction,a.isVisible=true →
      (a∈(handleFwCmd F cfg r.fw c).actions ↔ a∈sessionReplies cfg r.session c bootOk) := by
    intro a ha
    rw [←h,List.mem_filter]
    exact (and_iff_left ha).symm
  have hne : ¬fwCmdEnd=fwCmdStart ∧ ¬fwCmdEnd=fwCmdData := by decide
  rw [hmem _ rfl,hmem _ rfl]
  unfold sessionReplies endPasses
  simp only [hc,hne,hlong,true_and,if_true,if_false]
  cases r.session with
  | none => simp
  | some image =>
    simp only [Option.mem_some_iff,exists_eq_left',decide_eq_true_eq]
    by_cases hcrc : crc16Ccitt 0 image=sysGetLe16 c.data 1
    · rw [if_pos hcrc,and_iff_right hcrc]
      cases bootOk <;> simp
    · rw [if_neg hcrc,iff_false_right fun h => hcrc h.1]
      simp

/-- On a faultless device, in every run from boot whose data fits the slot, the
library answers every command as the session does. -/
theorem verdict_runs (hF : F.Lawful) (hfault : F.Faultless) (hback : F.ReadsBack) (device : δ)
    (commands : List UdpCmd)
    (h : AlongRun (uploadStep F cfg) (FitsSlot F) (.boot device) commands) :
    AlongRun (uploadStep F cfg) (Verdict F cfg) (.boot device) commands := by
  have hboot : Carrying F (UdpUpload.boot device) :=
    ⟨rfl,fun image himage => absurd himage (Option.not_mem_none image)⟩
  refine alongRun_of_invariant (fun r c hr hfit => ?_) hboot h
  obtain ⟨hnext,bootOk,hreplies⟩ := carriesOut hF hfault hback hfit hr
  exact ⟨hnext,⟨bootOk,hreplies⟩,fun hc hlong => granted_of_replies hc hlong hreplies,
    hnext.started⟩

/-- Two data commands with a version query, an empty data command and a refused
start between them. -/
theorem verdict_runs_two :
    AlongRun (uploadStep (bufferedFlash 64) .plain) (Verdict (bufferedFlash 64) .plain)
      (.boot ⟨List.replicate 64 0,none,0⟩)
      [⟨fwCmdStart,[8,0,0,0]⟩,⟨fwCmdData,List.replicate 5 1⟩,⟨fwCmdGetVersion,[]⟩,
        ⟨fwCmdData,[]⟩,⟨fwCmdStart,[9,0,0,0]⟩,⟨fwCmdData,List.replicate 3 1⟩,
        ⟨fwCmdEnd,[0,0x33,0x5F]⟩] :=
  verdict_runs (bufferedFlash_lawful (by decide)) (bufferedFlash_faultless 64)
    (bufferedFlash_readsBack 64) _ _ (by decide +kernel)

end Verdict

end ZephyrApp.UdpFwUpgrade
