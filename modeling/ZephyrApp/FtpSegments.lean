import ZephyrApp.FtpServer

/-!
# Segments of the FTP control connection

A control connection carries a stream of lines, which arrives cut into segments
anywhere. The server takes every segment for one line. Two ways to cut a stream
lead to the same conversation only if they are the same, and the lines of the
stream are what is executed only if every line is a segment of its own.
-/

namespace ZephyrApp.FtpSegments

open EventRuns MachineBytes FtpPath FtpCommands FtpNeeds FtpServer
open FtpSession (ascii)

/-- A command line: characters, and none of them a terminator. -/
structure CommandLine where
  /-- The characters. -/
  text : List Byte
  /-- None is a terminator. -/
  ne_zero : ∀ c∈text,c≠0

/-- A line with its carriage return and line feed. -/
def CommandLine.bytes (line : CommandLine) : List Byte := line.text++[0x0D,0x0A]

/-- What a client sends. -/
def stream (lines : List CommandLine) : List Byte := lines.flatMap CommandLine.bytes

/-- A way to cut a stream into what each `recv` returns. -/
structure Split (bytes : List Byte) where
  /-- The segments. -/
  segments : List Segment
  /-- Together they are the stream. -/
  whole : segments.flatMap Segment.bytes=bytes

/-- A command that was executed. -/
structure Executed where
  /-- The command. -/
  cmd : List Byte
  /-- Its parameter. -/
  param : Option (List Byte)
  /-- The messages it sent. -/
  replies : List Message

/-- What an event executes, none for a fault or no connection. -/
def executed (root : MountPoint) : Service → Event → Option Executed
  | .live f,.recv i r o =>
    if 0 < (f.slots i).fd then
      match serve root (f.slots i) f.dataBuf r o with
      | .error _ => none
      | .ok report =>
        let c := callOf (f.slots i) f.dataBuf r o
        some ⟨c.cmd,c.text,report.replies⟩
    else none
  | _,_ => none

/-- The segments arrive on a slot one after the other, with the outcomes of the
calls that their commands make. -/
def arrivals (i : Fin 4) (os : ℕ → Outcomes) (segments : List Segment) : List Event :=
  segments.mapIdx fun k segment => .recv i (.bytes segment) (os k)

/-- The conversation that segments lead to. -/
def conversation (root : MountPoint) (s : Service) (i : Fin 4) (os : ℕ → Outcomes)
    (segments : List Segment) : List (Option Executed) :=
  outputs (next root) (executed root) s (arrivals i os segments)

/-- All segments of two splits are executed, with the same commands, parameters
and messages. -/
def SameConversation (root : MountPoint) (s : Service) (i : Fin 4) (os : ℕ → Outcomes)
    (a b : List Segment) : Prop :=
  conversation root s i os a=conversation root s i os b ∧
    ∀ x∈conversation root s i os a,x≠none

/-- A segment arrives on a connection and its command finds what it needs. -/
def Served : Service → Event → Prop
  | .live f,.recv i r o => 0 < (f.slots i).fd ∧ serveFault (f.slots i) f.dataBuf r o=none
  | _,_ => False

/-- The command and the parameter of a line. -/
def command (line : List Byte) : List Byte×Option (List Byte) :=
  (FtpSession.lineCmd line,FtpSession.lineParam line)

section Cuts

/-- Two ways to cut a stream into pieces of two bytes or more are the same if
their pieces are the same but for their last two bytes. -/
theorem pieces_unique {xs ys : List (List Byte)} (hx : ∀ x∈xs,2 ≤ x.length)
    (hy : ∀ y∈ys,2 ≤ y.length) (hwhole : xs.flatten=ys.flatten)
    (htexts : xs.map (fun x => x.take (x.length-2))=ys.map fun y => y.take (y.length-2)) :
    xs=ys := by
  induction xs generalizing ys with
  | nil =>
    cases ys with
    | nil => rfl
    | cons y ys => cases htexts
  | cons x xs ih =>
    cases ys with
    | nil => cases htexts
    | cons y ys =>
      obtain ⟨hhead,htail⟩ := List.cons.inj htexts
      have hlen : x.length=y.length := by
        have htake := congrArg List.length hhead
        rw [List.length_take,List.length_take] at htake
        have hx2 := hx x List.mem_cons_self
        have hy2 := hy y List.mem_cons_self
        omega
      obtain ⟨rfl,hrest⟩ := List.append_inj hwhole hlen
      rw [ih (fun z hz => hx z (List.mem_cons_of_mem _ hz))
        (fun z hz => hy z (List.mem_cons_of_mem _ hz)) hrest htail]

/-- The bytes of a segment tell it. -/
theorem segment_bytes_injective : Function.Injective Segment.bytes := by
  rintro ⟨bytes,hpos,hfits⟩ ⟨_,_,_⟩ rfl
  rfl

/-- A command and its parameter tell their line. -/
theorem command_injective : Function.Injective command := by
  have hjoin : ∀ l : List Byte,l=(command l).1++
      (command l).2.elim [] (fun param => 0x20::param) := by
    intro l
    have hsplit := List.takeWhile_append_dropWhile (p := (·≠(0x20 : Byte))) (l := l)
    have hhead := List.head?_dropWhile_not (·≠(0x20 : Byte)) l
    rw [command,FtpSession.lineCmd,FtpSession.lineParam]
    cases hrest : l.dropWhile (·≠0x20) with
    | nil =>
      rw [hrest] at hsplit
      exact hsplit.symm
    | cons b post =>
      rw [hrest] at hsplit hhead
      obtain rfl : b=0x20 := by simpa using hhead
      exact hsplit.symm
  intro l l' h
  rw [hjoin l,hjoin l',h]

/-- No byte of a stream is a terminator. -/
theorem stream_ne_zero (lines : List CommandLine) : ∀ c∈stream lines,c≠0 := by
  intro c hc
  obtain ⟨line,-,hc⟩ := List.mem_flatMap.mp hc
  rcases List.mem_append.mp hc with hc | hc
  · exact line.ne_zero c hc
  · have hend : ∀ c∈[(0x0D : Byte),0x0A],c≠0 := by decide
    exact hend c hc

/-- The line of a segment without terminators is the segment but for its last
two bytes. -/
theorem segment_line {segment : Segment} (h : ∀ c∈segment.bytes,c≠0) :
    segment.line=segment.bytes.take (segment.bytes.length-2) := by
  rw [Segment.line,cString,List.takeWhile_eq_self_iff]
  exact fun c hc => decide_eq_true (h c (List.mem_of_mem_take hc))

end Cuts

section Conversations

variable {root : MountPoint} {s : Service} {i : Fin 4} {os : ℕ → Outcomes} {f : Ftpd}

/-- A conversation goes on after its first segment. -/
theorem conversation_cons (root : MountPoint) (s : Service) (i : Fin 4) (os : ℕ → Outcomes)
    (segment : Segment) (segments : List Segment) :
    conversation root s i os (segment::segments)=
      executed root s (.recv i (.bytes segment) (os 0))::
        conversation root (next root s (.recv i (.bytes segment) (os 0))) i
          (fun k => os (k+1)) segments := by
  rw [conversation,arrivals,List.mapIdx_cons,outputs]
  rfl

/-- A segment that is executed has two bytes at least, and is executed as its
command. -/
theorem executed_command {segment : Segment} {o : Outcomes}
    (h : executed root s (.recv i (.bytes segment) o)≠none) : 2 ≤ segment.bytes.length ∧
      (executed root s (.recv i (.bytes segment) o)).map (fun x => (x.cmd,x.param))=
        some (command segment.line) := by
  cases s with
  | broken fault => exact absurd rfl h
  | live f =>
    rw [executed] at h ⊢
    split at h
    · rename_i hfd
      rw [if_pos hfd]
      cases hserve : serve root (f.slots i) f.dataBuf (.bytes segment) o with
      | error fault =>
        rw [hserve] at h
        exact absurd rfl h
      | ok report =>
        have hlong : 2 ≤ segment.bytes.length := by
          by_contra hshort
          rw [serve,storeAt,if_neg] at hserve
          · cases hserve
          · rw [Received.rc]
            omega
        obtain ⟨hcmd,htext⟩ := callOf_line (f.slots i) f.dataBuf o segment hlong
        refine ⟨hlong,?_⟩
        simp only [Option.map_some,hcmd,htext]
        rfl
    · exact absurd rfl h

/-- In a conversation without faults every segment has two bytes at least and is
executed as its command. -/
theorem conversation_commands {segments : List Segment}
    (h : ∀ x∈conversation root s i os segments,x≠none) :
    (∀ segment∈segments,2 ≤ segment.bytes.length) ∧
      (conversation root s i os segments).map (Option.map fun x => (x.cmd,x.param))=
        segments.map fun segment => some (command segment.line) := by
  induction segments generalizing s os with
  | nil => exact ⟨fun _ hx => absurd hx List.not_mem_nil,rfl⟩
  | cons segment segments ih =>
    rw [conversation_cons,List.forall_mem_cons] at h
    obtain ⟨hlong,hcommand⟩ := executed_command h.1
    obtain ⟨hrest,hcommands⟩ := ih h.2
    refine ⟨List.forall_mem_cons.mpr ⟨hlong,hrest⟩,?_⟩
    rw [conversation_cons,List.map_cons,List.map_cons,hcommand,hcommands]

/-- On a sound server a segment is executed exactly if it is served. -/
theorem executed_iff_served (hs : SoundLive s) (e : Event) :
    executed root s e≠none ↔ Served s e := by
  cases s with
  | broken fault => exact ⟨fun h => absurd rfl h,fun h => h.elim⟩
  | live f =>
    cases e with
    | accept client => exact ⟨fun h => absurd rfl h,fun h => h.elim⟩
    | release j => exact ⟨fun h => absurd rfl h,fun h => h.elim⟩
    | recv j r o =>
      have hsound := hs f rfl
      have hends := ends_serve (r := r) (o := o) root (hsound.bounded j) hsound.size
      rw [executed,Served]
      by_cases hfd : 0 < (f.slots j).fd
      · rw [if_pos hfd,and_iff_right hfd]
        cases hserve : serve root (f.slots j) f.dataBuf r o with
        | error fault =>
          rw [hserve] at hends
          rw [show serveFault (f.slots j) f.dataBuf r o=some fault from hends]
          exact ⟨fun h => absurd rfl h,fun h => nomatch h⟩
        | ok report =>
          rw [hserve] at hends
          exact ⟨fun _ => hends.1,fun _ => Option.some_ne_none _⟩
      · rw [if_neg hfd]
        exact ⟨fun h => absurd rfl h,fun h => absurd h.1 hfd⟩

/-- A conversation has no faults exactly if every segment is served. -/
theorem conversation_served (root : MountPoint) (i : Fin 4) (os : ℕ → Outcomes)
    (hs : SoundLive s) (segments : List Segment) :
    (∀ x∈conversation root s i os segments,x≠none) ↔
      AlongRun (next root) Served s (arrivals i os segments) := by
  rw [conversation,forall_outputs_iff]
  exact alongRun_congr (soundLive_next root) (fun s e hs => executed_iff_served hs e) hs _

/-- Where all segments of a split are executed, their lines are what they hold
but for their last two bytes. -/
theorem split_lines {lines : List CommandLine} (a : Split (stream lines)) :
    (a.segments.map Segment.bytes).map (fun x => x.take (x.length-2))=
      a.segments.map Segment.line := by
  rw [List.map_map]
  refine List.map_congr_left fun segment hin => (segment_line fun c hc => ?_).symm
  exact stream_ne_zero lines c (a.whole▸List.mem_flatMap.mpr ⟨segment,hin,hc⟩)

/-- Commands that are told by their lines tell the lines. -/
theorem lines_of_commands {xs ys : List (List Byte)}
    (h : xs.map (some∘command)=ys.map (some∘command)) : xs=ys :=
  List.map_injective_iff.mpr ((Option.some_injective _).comp command_injective) h

/-- Two splits of a stream that lead to the same conversation are the same. -/
theorem split_unique {lines : List CommandLine} (a b : Split (stream lines))
    (h : SameConversation root s i os a.segments b.segments) : a.segments=b.segments := by
  obtain ⟨hsame,hexecuted⟩ := h
  obtain ⟨ha,hcommandsA⟩ := conversation_commands hexecuted
  obtain ⟨hb,hcommandsB⟩ := conversation_commands (hsame▸hexecuted)
  have hlines : a.segments.map Segment.line=b.segments.map Segment.line := by
    have hcommands := hcommandsA.symm.trans ((congrArg _ hsame).trans hcommandsB)
    apply lines_of_commands
    rw [List.map_map,List.map_map]
    exact hcommands
  have hbytes : a.segments.map Segment.bytes=b.segments.map Segment.bytes := by
    apply pieces_unique
    · exact List.forall_mem_map.mpr ha
    · exact List.forall_mem_map.mpr hb
    · rw [←List.flatMap_def,←List.flatMap_def,a.whole,b.whole]
    · rw [split_lines,split_lines,hlines]
  exact List.map_injective_iff.mpr segment_bytes_injective hbytes

/-- The commands that are executed are the lines of the stream only if every
line is a segment of its own. -/
theorem executed_lines_segments {lines : List CommandLine} (a : Split (stream lines))
    (h : (conversation root s i os a.segments).map (Option.map fun x => (x.cmd,x.param))=
      lines.map fun line => some (command line.text)) :
    a.segments.map Segment.bytes=lines.map CommandLine.bytes := by
  have hexecuted : ∀ x∈conversation root s i os a.segments,x≠none := by
    rintro x hx rfl
    have hnone := List.mem_map_of_mem (f := Option.map fun x => (x.cmd,x.param)) hx
    rw [h] at hnone
    obtain ⟨line,-,hline⟩ := List.mem_map.mp hnone
    cases hline
  obtain ⟨hlong,hcommands⟩ := conversation_commands hexecuted
  have hlines : a.segments.map Segment.line=lines.map CommandLine.text := by
    apply lines_of_commands
    rw [List.map_map,List.map_map]
    exact hcommands.symm.trans h
  have htexts : (lines.map CommandLine.bytes).map (fun x => x.take (x.length-2))=
      lines.map CommandLine.text := by
    rw [List.map_map]
    refine List.map_congr_left fun line _ => ?_
    rw [Function.comp_apply,CommandLine.bytes,List.length_append]
    exact List.take_left
  apply pieces_unique
  · exact List.forall_mem_map.mpr hlong
  · refine List.forall_mem_map.mpr fun line _ => ?_
    rw [CommandLine.bytes,List.length_append]
    exact Nat.le_add_left _ _
  · rw [←List.flatMap_def,←List.flatMap_def]
    exact a.whole
  · rw [split_lines,hlines,htexts]

end Conversations

/-- After any run of the server, two splits of a stream of lines lead to the
same conversation exactly if they are the same and every segment of them is
served. -/
theorem same_conversation_iff (root : MountPoint) (es : List Event) (i : Fin 4)
    (os : ℕ → Outcomes) {lines : List CommandLine} (a b : Split (stream lines)) :
    SameConversation root (finalState (next root) start es) i os a.segments b.segments ↔
      a.segments=b.segments ∧
        AlongRun (next root) Served (finalState (next root) start es)
          (arrivals i os a.segments) := by
  have hserved := conversation_served root i os (soundLive_run root es) a.segments
  constructor
  · exact fun h => ⟨split_unique a b h,hserved.mp h.2⟩
  · rintro ⟨heq,hall⟩
    exact ⟨congrArg _ heq,hserved.mpr hall⟩

/-- The lines `USER anonymous` and `SYST`. -/
def twoLines : List CommandLine :=
  [⟨ascii ['U','S','E','R',' ']++FtpSession.anonymous,by decide⟩,
    ⟨ascii ['S','Y','S','T'],by decide⟩]

/-- Every line in a segment of its own. -/
def apart : Split (stream twoLines) :=
  ⟨[⟨ascii ['U','S','E','R',' ']++FtpSession.anonymous++[0x0D,0x0A],by decide,by decide⟩,
    ⟨ascii ['S','Y','S','T']++[0x0D,0x0A],by decide,by decide⟩],by decide⟩

/-- Both lines in one segment. -/
def together : Split (stream twoLines) := ⟨[⟨stream twoLines,by decide,by decide⟩],by decide⟩

/-- On a new connection both lines are executed if they arrive apart, but not if
they arrive together. -/
theorem pipelined_lines_differ :
    (∀ x∈conversation lfs1 (finalState (next lfs1) start [.accept 4]) 0 (fun _ => allOk)
        apart.segments,x≠none) ∧
      ¬SameConversation lfs1 (finalState (next lfs1) start [.accept 4]) 0 (fun _ => allOk)
        apart.segments together.segments := by
  constructor
  · have hall : (conversation lfs1 (finalState (next lfs1) start [.accept 4]) 0
        (fun _ => allOk) apart.segments).all Option.isSome=true := by
      decide +kernel
    intro x hx
    exact Option.isSome_iff_ne_none.mp (List.all_eq_true.mp hall x hx)
  · intro h
    have hlengths := congrArg List.length (split_unique apart together h)
    exact absurd hlengths (by decide)

end ZephyrApp.FtpSegments
