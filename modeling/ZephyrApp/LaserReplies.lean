import ZephyrApp.DecimalText

/-!
# Replies of the laser sensor

The controller prints the sensor id into its requests as decimal text. The
thread that takes the replies looks for a `g` followed by the id as one byte,
and reads the kind of the reply from the byte after it. A distance is read as
text up to a terminator that overwrites the end of the frame.
-/

namespace ZephyrApp.LaserReplies

open MachineBytes DecimalText

/-- The id as the requests carry it, `"%d"`. -/
def idText (id : Byte) : List Byte := decimalText id.toNat

/-- A request, `"s%d"` followed by the letters of its command and a line end. -/
def laserRequest (id : Byte) (command : List Byte) : List Byte :=
  0x73::(idText id++command++[0x0D,0x0A])

/-- The text that `laser_stopclear` sends. -/
def laserStopclear (id : Byte) : List Byte := laserRequest id [0x63]

/-- The text that `laser_on` sends. -/
def laserOn (id : Byte) : List Byte := laserRequest id [0x6F]

/-- The events of `laser_event`. -/
inductive LaserEventBit where
  /-- `EVENT_LASER_STOP_ON`. -/
  | stopOn
  /-- `EVENT_LASER_ERROR`. -/
  | error
  /-- `EVENT_LASER_MSG`. -/
  | msg
  /-- `EVENT_LASER_OTHER`. -/
  | other
deriving DecidableEq

/-- What a frame is taken for. -/
inductive Reply where
  /-- `Invalid uart frame!`. -/
  | invalid
  /-- A distance. -/
  | distance (value : ℤ)
  /-- An error code. -/
  | errorCode (code : Half)
  /-- The answer to switching on or to stopping. -/
  | stopClear
  /-- Any other answer of the sensor. -/
  | other
deriving DecidableEq

/-- The first place of a `g` that the id follows, as the loop over the frame finds it. -/
def findId (id : Byte) : List Byte → Option ℕ
  | a::b::rest => if a=0x67 ∧ b=id then some 0 else (findId id (b::rest)).map (·+1)
  | _ => none

/-- The text from an offset on, once the terminator is in place. -/
def terminated (data : List Byte) (offset : ℕ) : List Byte :=
  ((data.set (data.length-2) 0).drop offset).takeWhile (·≠0)

/-- The tests of `laser_msg_process_thread` on a frame. -/
def classify (id : Byte) (data : List Byte) : Reply :=
  match findId id data with
  | none => .invalid
  | some i =>
    if data.length ≤ i+2 then .invalid
    else if data.getD (i+2) 0=0x68 then .distance (strtol (terminated data (i+3)))
    else if data.getD (i+2) 0=0x40 ∧ i+3 < data.length ∧ data.getD (i+3) 0=0x45 then
      .errorCode (BitVec.ofInt 16 (strtol (terminated data (i+4))))
    else if data.getD (i+2) 0=0x3F then .stopClear
    else .other

/-- The statics that the thread uses. -/
structure LaserSerial where
  /-- `id`, set by the command `laser id`. -/
  id : Byte
  /-- `first_on`. -/
  firstOn : Bool
  /-- `LASER_CON_MESURE` of `laser_status`. -/
  conMesure : Bool
  /-- `LASER_FW_UPDATE` of `laser_status`. -/
  fwUpdate : Bool

/-- What the thread does with a frame. -/
structure LaserReport where
  /-- The statics afterwards. -/
  state : LaserSerial
  /-- The events that are set. -/
  events : List LaserEventBit
  /-- The distance field of the CAN frame that is sent, if one is. -/
  laserVal : Option (BitVec 24)

/-- Report a distance on the bus, unless a firmware upgrade is under way. -/
def reportDistance (s : LaserSerial) (events : List LaserEventBit) (late : Bool) (distance : ℤ) :
    LaserReport :=
  if s.fwUpdate then ⟨{s with fwUpdate := !late},events,none⟩
  else ⟨s,events,some (BitVec.ofInt 24 distance)⟩

/-- One frame taken by `laser_msg_process_thread`; `late` says that the last
upgrade frame is more than ten seconds old. -/
def laserMsgProcessThread (s : LaserSerial) (data : List Byte) (late : Bool) : LaserReport :=
  match classify s.id data with
  | .invalid => ⟨s,[],none⟩
  | .distance value =>
    if s.firstOn then reportDistance {s with firstOn := false} [.msg] late value
    else reportDistance s [] late value
  | .errorCode _ => reportDistance s (if s.conMesure then [] else [.error]) late 0
  | .stopClear => ⟨{s with firstOn := !s.conMesure},[.stopOn],none⟩
  | .other => ⟨s,[.other],none⟩

section Sensor

/-- The sign before a distance. -/
inductive Sign where
  /-- No sign. -/
  | none
  /-- `+`. -/
  | plus
  /-- `-`. -/
  | minus

/-- A sign as text. -/
def Sign.text : Sign → List Byte
  | .none => []
  | .plus => [0x2B]
  | .minus => [0x2D]

/-- The number that a sign and digits stand for. -/
def Sign.value (d : ℕ) : Sign → ℤ
  | .minus => -d
  | _ => d

/-- The replies of a sensor to measuring, and to switching on or stopping. -/
inductive SensorReply where
  /-- A distance. -/
  | distance (sign : Sign) (d : BitVec 24)
  /-- The confirmation. -/
  | stopClear

/-- What follows the id in a reply. -/
def SensorReply.body : SensorReply → List Byte
  | .distance sign d => 0x68::(sign.text++decimalText d.toNat++[0x0D,0x0A])
  | .stopClear => [0x3F,0x0D,0x0A]

/-- A reply that carries an id in some form. -/
def SensorReply.frame (reply : SensorReply) (id : List Byte) : List Byte :=
  0x67::(id++reply.body)

/-- A reply that carries the id as the requests do. -/
def SensorReply.text (reply : SensorReply) (id : Byte) : List Byte := reply.frame (idText id)

/-- The controller's own sensor is understood: a distance is read as it is and
a confirmation is signalled. The reply of another sensor is taken for nothing. -/
def Handled (s : LaserSerial) (sensor : Byte) (reply : SensorReply) (late : Bool) : Prop :=
  if sensor=s.id then
    match reply with
    | .distance sign d => classify s.id (reply.text sensor)=.distance (sign.value d.toNat)
    | .stopClear => LaserEventBit.stopOn∈(laserMsgProcessThread s (reply.text sensor) late).events
  else classify s.id (reply.text sensor)=.invalid

/-- A printed number holds no `g`. -/
theorem g_notMem_decimalText (n : ℕ) : (0x67 : Byte)∉decimalText n := by
  intro h
  have := isDigit_of_mem h
  simp [isDigit] at this

/-- What follows the id holds no `g`. -/
theorem g_notMem_body (reply : SensorReply) : (0x67 : Byte)∉reply.body := by
  cases reply with
  | distance sign d =>
    have hd := g_notMem_decimalText d.toNat
    simp only [BitVec.ofNat_eq_ofNat] at hd
    cases sign <;> simp [SensorReply.body,Sign.text,hd]
  | stopClear => simp [SensorReply.body]

/-- Without a `g` there is no place to find. -/
theorem findId_eq_none {id : Byte} {data : List Byte} (h : (0x67 : Byte)∉data) :
    findId id data=none := by
  induction data with
  | nil => rfl
  | cons a data ih =>
    rw [List.mem_cons,not_or] at h
    cases data with
    | nil => rfl
    | cons b rest => simp only [findId,Ne.symm h.1,false_and,if_false,ih h.2,Option.map_none]

/-- A reply that starts with another id byte is taken for nothing. -/
theorem classify_frame_of_ne {id c : Byte} {cs : List Byte} (reply : SensorReply) (hne : c≠id)
    (hcs : (0x67 : Byte)∉c::cs) : classify id (reply.frame (c::cs))=.invalid := by
  have hfind : findId id (reply.frame (c::cs))=none := by
    have hrest : findId id (c::(cs++reply.body))=none := by
      apply findId_eq_none
      rw [←List.cons_append,List.mem_append]
      exact not_or.mpr ⟨hcs,g_notMem_body reply⟩
    simp [SensorReply.frame,findId,hne,hrest]
  rw [classify,hfind]

/-- A reply whose first id byte is the id is found at once, and the byte after
that decides its kind. -/
theorem classify_frame_of_eq (id : Byte) (cs : List Byte) (reply : SensorReply) :
    classify id (reply.frame (id::cs))≠.invalid := by
  have hlen : ¬(reply.frame (id::cs)).length ≤ 0+2 := by
    cases reply <;> simp [SensorReply.frame,SensorReply.body]
  have hfind : findId id (reply.frame (id::cs))=some 0 := by
    simp [SensorReply.frame,findId]
  rw [classify,hfind]
  simp only [hlen,if_false]
  split_ifs <;> simp

/-- A second digit of the id is taken for the kind of the reply. -/
theorem classify_frame_digit (id : Byte) {d : Byte} (hd : isDigit d=true) (cs : List Byte)
    (reply : SensorReply) : classify id (reply.frame (id::d::cs))=.other := by
  have hfind : findId id (reply.frame (id::d::cs))=some 0 := by
    simp [SensorReply.frame,findId]
  have hne : d≠0x68 ∧ d≠0x40 ∧ d≠0x3F := by
    refine ⟨?_,?_,?_⟩ <;> rintro rfl <;> simp [isDigit] at hd
  have hlen : ¬(reply.frame (id::d::cs)).length ≤ 0+2 := by
    simp [SensorReply.frame]
  have hget : (reply.frame (id::d::cs)).getD (0+2) 0=d := rfl
  rw [classify,hfind]
  simp only [hlen,hget,hne,false_and,if_false]

/-- The controller's own sensor is never understood: its reply is taken for
nothing or for another kind of answer. -/
theorem classify_own (id : Byte) (reply : SensorReply) :
    classify id (reply.text id)=.invalid ∨ classify id (reply.text id)=.other := by
  obtain ⟨c,rest,htext,hten⟩ := decimalText_cons id.toNat
  have hg := g_notMem_decimalText id.toNat
  rw [SensorReply.text,idText]
  rw [htext] at hg ⊢
  by_cases hc : c=id
  · -- the first digit is the id itself, so the id has a second digit
    subst hc
    have hfirst := isDigit_of_mem (htext ▸ List.mem_cons_self (a := c))
    simp only [isDigit,decide_eq_true_eq] at hfirst
    obtain ⟨d,ds,rfl⟩ := List.exists_cons_of_ne_nil (hten (by omega))
    have hd : isDigit d=true := isDigit_of_mem (n := c.toNat) (by simp [htext])
    exact Or.inr (classify_frame_digit c hd ds reply)
  · exact Or.inl (classify_frame_of_ne reply hc hg)

/-- Another sensor's reply is taken for nothing exactly when the id is not the
character of the first digit of the other id. -/
theorem classify_other_iff (id sensor : Byte) (reply : SensorReply) :
    classify id (reply.text sensor)=.invalid ↔ (idText sensor).head?≠some id := by
  obtain ⟨c,rest,htext,-⟩ := decimalText_cons sensor.toNat
  have hg := g_notMem_decimalText sensor.toNat
  rw [SensorReply.text,idText]
  rw [htext] at hg ⊢
  simp only [List.head?_cons,ne_eq,Option.some.injEq]
  constructor
  · rintro h rfl
    exact classify_frame_of_eq c rest reply h
  · exact fun hc => classify_frame_of_ne reply hc hg

/-- Whatever the statics and the reply, it is handled as intended exactly when
it comes from another sensor whose id does not start with the digit that has
the controller's id as its character. -/
theorem laser_reply_handled_iff (s : LaserSerial) (sensor : Byte) (reply : SensorReply)
    (late : Bool) :
    Handled s sensor reply late ↔ sensor≠s.id ∧ (idText sensor).head?≠some s.id := by
  unfold Handled
  split
  · next h =>
    subst h
    rcases classify_own s.id reply with hown | hown
    · cases reply <;> simp [laserMsgProcessThread,hown]
    · cases reply <;> simp [laserMsgProcessThread,hown]
  · next h =>
    rw [classify_other_iff]
    exact ⟨fun hh => ⟨h,hh⟩,fun hh => hh.2⟩

/-- Sensor 1 measures 5: its own controller takes the reply for nothing, and a
controller with the id 49 takes it for its own. -/
theorem laser_reply_lost :
    ¬Handled ⟨1,true,false,false⟩ 1 (.distance .plus 5) false ∧
    ¬Handled ⟨1,true,false,false⟩ 1 .stopClear false ∧
    ¬Handled ⟨49,true,false,false⟩ 1 (.distance .plus 5) false := by
  have hown : classify 1 ((SensorReply.distance .plus 5).text 1)=.invalid := by decide
  have hstop : classify 1 (SensorReply.stopClear.text 1)=.invalid := by decide
  have hother : classify 49 ((SensorReply.distance .plus 5).text 1)=.distance 5 := by decide
  simp only [BitVec.ofNat_eq_ofNat] at hown hstop hother
  simp [Handled,hown,hstop,hother,laserMsgProcessThread]

end Sensor

end ZephyrApp.LaserReplies
