import ZephyrApp.FtpPath

/-!
# Sessions of the FTP server

Four session slots are taken by connections and reset when one ends. A line is
split at its first blank into the command and its parameter. Among the lines of
a connection the password completes the login of the user named last.
-/

namespace ZephyrApp.FtpSession

open MachineBytes FtpPath

/-- The bytes of some characters. -/
def ascii (text : List Char) : List Byte := text.map fun c => BitVec.ofNat 8 c.toNat

/-- `USER_NAME`. -/
def userName : List Byte := ascii ['a','d','m','i','n']

/-- `USER_PAWD`. -/
def userPawd : List Byte := ascii ['a','d','m','i','n']

/-- The name of an anonymous user. -/
def anonymous : List Byte := ascii ['a','n','o','n','y','m','o','u','s']

/-- `enum ftp_session_state`. -/
inductive FtpSessionState where
  /-- `FTP_SESSION_STATE_USER`. -/
  | user
  /-- `FTP_SESSION_STATE_PASSWD`. -/
  | passwd
  /-- `FTP_SESSION_STATE_OK`. -/
  | ok
deriving DecidableEq

/-- The fields of a session that serve transfers. -/
structure Transfer where
  /-- `port_pasv_fd`. -/
  portPasvFd : ℤ
  /-- `pasvs_fd`. -/
  pasvsFd : ℤ
  /-- `offset`. -/
  offset : ℤ
  /-- `type`. -/
  type : ℤ

/-- `struct ftp_session`. -/
structure Session where
  /-- `fd`, zero in a free slot. -/
  fd : ℤ
  /-- `is_anonymous`. -/
  isAnonymous : ℤ
  /-- The transfer fields. -/
  transfer : Transfer
  /-- `state`. -/
  state : FtpSessionState
  /-- `currentdir`. -/
  currentdir : List Byte

/-- The copy of the current directory that a command joins its path to. -/
def pathBuf (s : Session) : List Byte :=
  (writeString (List.replicate 256 0) 0 ((cString s.currentdir).take 255)).getD []

section Lines

/-- A line up to its first blank. -/
def lineCmd (line : List Byte) : List Byte := line.takeWhile (·≠0x20)

/-- A line behind its first blank, if it has one. -/
def lineParam (line : List Byte) : Option (List Byte) :=
  match line.dropWhile (·≠0x20) with
  | [] => none
  | _::param => some param

/-- Whether a line's command starts with a name. -/
def Starts (name : List Char) (line : List Byte) : Prop := (ascii name).isPrefixOf (lineCmd line)=true

instance (name : List Char) (line : List Byte) : Decidable (Starts name line) :=
  inferInstanceAs (Decidable ((ascii name).isPrefixOf (lineCmd line)=true))

end Lines

section Server

/-- `ftp_session_reset`. -/
def ftpSessionReset (s : Session) : Session :=
  ⟨0,0,⟨-1,-1,0,0⟩,.user,List.replicate s.currentdir.length 0⟩

/-- The slots of the server. -/
abbrev Slots := Fin 4 → Session

/-- The slots at start, all zero. -/
def ftpStart : Slots := fun _ => ⟨0,0,⟨0,0,0,0⟩,.user,List.replicate 256 0⟩

/-- The number of slots that hold a connection. -/
def connectNum (slots : Slots) : ℕ := (List.finRange 4).countP fun i => 0 < (slots i).fd

/-- The slot that a new connection takes, if it is let in. -/
def takenSlot (slots : Slots) (client : ℤ) : Option (Fin 4) :=
  if client < 0 ∨ 2 < connectNum slots then none
  else (List.finRange 4).find? fun i => (slots i).fd=0

/-- A slot is found free before it is taken. -/
theorem takenSlot_free {slots : Slots} {client : ℤ} {i : Fin 4}
    (h : takenSlot slots client=some i) : (slots i).fd=0 := by
  rw [takenSlot] at h
  split at h
  · cases h
  · simpa using List.find?_some h

end Server

section Login

/-- A line that names the user who must give a password. -/
def UserAdmin (line : List Byte) : Prop :=
  Starts ['U','S','E','R'] line ∧ lineParam line=some userName

/-- A line that gives the password. -/
def Password (line : List Byte) : Prop :=
  Starts ['P','A','S','S'] line ∧ lineParam line=some userPawd

/-- Among the lines of a connection the password is given after the last one
that names the user. -/
def PasswordGiven (lines : List (List Byte)) : Prop :=
  ∃ before user between password after,lines=before++user::(between++password::after) ∧
    UserAdmin user ∧ Password password ∧ ∀ line∈between++password::after,¬UserAdmin line

/-- Some line names the user. -/
def UserNamed (lines : List (List Byte)) : Prop := ∃ line∈lines,UserAdmin line

/-- A command has one name only. -/
theorem not_userAdmin_of_password {line : List Byte} (h : Password line) : ¬UserAdmin line := by
  intro hu
  have hp := h.1
  have hs := hu.1
  rw [Starts] at hp hs
  cases hc : lineCmd line with
  | nil => simp [hc,ascii] at hp
  | cons c cmd =>
    simp only [hc,ascii,List.map_cons,List.isPrefixOf_cons_cons,Bool.and_eq_true,beq_iff_eq] at hp hs
    exact absurd (hp.1.trans hs.1.symm) (by decide)

/-- Some line is the last one that names the user. -/
theorem UserNamed.exists_last {lines : List (List Byte)} (h : UserNamed lines) :
    ∃ before user rest,lines=before++user::rest ∧ UserAdmin user ∧ ∀ line∈rest,¬UserAdmin line := by
  induction lines using List.reverseRecOn with
  | nil =>
    obtain ⟨l,hl,-⟩ := h
    exact absurd hl List.not_mem_nil
  | append_singleton lines last ih =>
    by_cases hlast : UserAdmin last
    · exact ⟨lines,last,[],rfl,hlast,by simp⟩
    · have hnamed : UserNamed lines := by
        obtain ⟨l,hl,hu⟩ := h
        rcases List.mem_append.mp hl with hl | hl
        · exact ⟨l,hl,hu⟩
        · exact absurd (List.mem_singleton.mp hl ▸ hu) hlast
      obtain ⟨before,user,rest,rfl,huser,hrest⟩ := ih hnamed
      refine ⟨before,user,rest++[last],by simp,huser,?_⟩
      intro l hl
      rcases List.mem_append.mp hl with hl | hl
      · exact hrest l hl
      · exact List.mem_singleton.mp hl ▸ hlast

/-- The password completes the login of the user named last. -/
theorem passwordGiven_append {lines : List (List Byte)} (hnamed : UserNamed lines)
    {line : List Byte} (h : Password line) : PasswordGiven (lines++[line]) := by
  obtain ⟨before,user,rest,rfl,huser,hrest⟩ := hnamed.exists_last
  refine ⟨before,user,rest,line,[],by simp,huser,h,?_⟩
  intro l hl
  rcases List.mem_append.mp hl with hl | hl
  · exact hrest l hl
  · exact List.mem_singleton.mp hl ▸ not_userAdmin_of_password h

/-- Another line keeps the password given, unless it names the user again. -/
theorem PasswordGiven.append {lines : List (List Byte)} (h : PasswordGiven lines)
    {line : List Byte} (hline : ¬UserAdmin line) : PasswordGiven (lines++[line]) := by
  obtain ⟨before,user,between,password,after,rfl,huser,hpassword,hno⟩ := h
  refine ⟨before,user,between,password,after++[line],by simp,huser,hpassword,?_⟩
  intro l hl
  rw [←List.cons_append,←List.append_assoc,List.mem_append,List.mem_singleton] at hl
  rcases hl with hl | rfl
  · exact hno l hl
  · exact hline

end Login

end ZephyrApp.FtpSession
