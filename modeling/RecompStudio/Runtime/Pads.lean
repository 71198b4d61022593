import RecompStudio.Runtime.Sio

/-!
The pads of the two ports: a DualShock that answers polls, and the commands of
its configuration mode while it is in it. The host sets buttons and sticks at any
time, and asks for a type that the pad takes up between transactions.
-/

namespace RecompStudio.Runtime

/-- `PsxPadNegotiationState`. -/
inductive NegotiationState where
  | off | waitingForGame | dpad | dpadProbe | hybrid
deriving DecidableEq, Repr

/-- The automatic choice between a D-pad and a hybrid pad. -/
structure PadNegotiation where
  enabled : Bool
  state : NegotiationState
  configProbeStreak : Nat
deriving DecidableEq, Repr

namespace PadNegotiation

/-- `psx_pad_negotiation_observe_command`. -/
def observeCommand (n : PadNegotiation) (command : Byte) : PadNegotiation :=
  if !n.enabled then n
  else if n.state ≠ .dpad ∧ n.state ≠ .dpadProbe then n
  else if command = 0x42 then { n with state := .dpad, configProbeStreak := 0 }
  else if command ≠ 0x43 then n
  else if n.configProbeStreak = 0 then { n with state := .dpadProbe, configProbeStreak := 1 }
  else { n with state := .hybrid, configProbeStreak := 2 }

def usesDpad (n : PadNegotiation) : Bool := n.enabled && n.state ≠ .hybrid

def usesHybrid (n : PadNegotiation) : Bool := n.enabled && n.state = .hybrid

end PadNegotiation

/-- The pad of a port. `typeReq` is the type that the host has asked for. -/
structure PadSlot where
  connected : Bool
  analog : Bool
  inConfig : Bool
  analogModeLocked : Bool
  typeReq : Option Bool
  supportsConfig : Bool
  negotiation : PadNegotiation
  buttons : BitVec 16
  lx : Byte
  ly : Byte
  rx : Byte
  ry : Byte
deriving DecidableEq, Repr

inductive PadState where
  | idle | waitAccess | sendResponse
deriving DecidableEq, Repr

/-- The pads and the transaction of the port that is selected. -/
structure Pads where
  slots : Slot → PadSlot
  state : PadState
  currentCmd : Byte
  response : List Byte
  responseLen : Nat
  responseIdx : Nat
  legacyCfg : Bool

namespace PadSlot

/-- `pad_effective_config_capable`. -/
def effectiveConfigCapable (p : PadSlot) : Bool :=
  if p.negotiation.enabled then p.negotiation.usesHybrid else p.supportsConfig

/-- The ID that a pad reports. -/
@[grind =] def curId (p : PadSlot) : Byte :=
  if p.inConfig then 0xF3 else if p.analog then 0x73 else 0x41

/-- A poll: the buttons, and the sticks of an analog pad. -/
def pollFrame (p : PadSlot) : List Byte :=
  [p.curId, 0x5A, p.buttons.setWidth 8, (p.buttons >>> 8).setWidth 8] ++
    if p.analog || p.inConfig then [p.rx, p.ry, p.lx, p.ly] else []

/-- The answer to the command that enters and leaves the configuration mode. -/
def configFrame (p : PadSlot) (legacyCfg : Bool) : List Byte :=
  if legacyCfg then [0xF3, 0x5A, 0, 0, 0, 0, 0, 0]
  else if !p.inConfig then p.pollFrame
  else [p.curId, 0x5A, 0, 0, 0, 0, 0, 0]

/-- The canned answers of the configuration mode. -/
def cannedFrame (p : PadSlot) (cmd : Byte) : List Byte :=
  if cmd = 0x45 then [0xF3, 0x5A, 0x03, if p.analog then 0x01 else 0x00, 0x01, 0x02, 0x01, 0x00]
  else if cmd = 0x46 then [0xF3, 0x5A, 0x00, 0x00, 0x01, 0x02, 0x00, 0x0A]
  else if cmd = 0x47 then [0xF3, 0x5A, 0x00, 0x00, 0x02, 0x00, 0x01, 0x00]
  else if cmd = 0x4C then [0xF3, 0x5A, 0x00, 0x00, 0x00, 0x04, 0x00, 0x00]
  else [0xF3, 0x5A, 0x00, 0x00, 0x00, 0x00, 0x00, 0x00]

/-- What a pad answers to a command, if it does. -/
@[grind =] def answer (p : PadSlot) (legacyCfg : Bool) (cmd : Byte) : Option (List Byte) :=
  let ds := p.effectiveConfigCapable
  if cmd = 0x42 then some p.pollFrame
  else if ds ∧ cmd = 0x43 then some (p.configFrame legacyCfg)
  else if ds ∧ legacyCfg ∧
      (cmd = 0x45 ∨ cmd = 0x46 ∨ cmd = 0x47 ∨ cmd = 0x4C ∨ cmd = 0x4D) then
    some (p.cannedFrame cmd)
  else if ds ∧ !legacyCfg ∧ p.inConfig ∧
      (cmd = 0x44 ∨ cmd = 0x45 ∨ cmd = 0x46 ∨ cmd = 0x47 ∨ cmd = 0x4C ∨ cmd = 0x4D ∨
        cmd = 0x4F) then
    some (p.cannedFrame cmd)
  else none

/-- The type that the host has asked for is taken up. -/
def applyRequest (p : PadSlot) : PadSlot :=
  match p.typeReq with
  | some analog =>
      if !p.inConfig ∧ !p.analogModeLocked then { p with analog := analog, typeReq := none } else p
  | none => p

/-- The effect of a byte behind a command: the second one enters or leaves the
configuration mode or sets the type, and the third one locks it. -/
def latch (p : PadSlot) (legacyCfg : Bool) (cmd : Byte) (idx : Nat) (b : Byte) : PadSlot :=
  if legacyCfg then p
  else if cmd = 0x43 ∧ idx = 2 then { p with inConfig := b = 0x01 }
  else if cmd = 0x44 ∧ idx = 2 then { p with analog := b = 0x01, typeReq := none }
  else if cmd = 0x44 ∧ idx = 3 then
    if b = 0x03 then { p with analogModeLocked := true }
    else if b = 0x02 then { p with analogModeLocked := false }
    else p
  else p

end PadSlot

namespace Pads

@[grind =] def setSlot (s : Pads) (slot : Slot) (p : PadSlot) : Pads :=
  { s with slots := fun k => if k = slot then p else s.slots k }

/-- The transaction is over. -/
def endTransaction (s : Pads) : Pads :=
  { s with state := .idle, responseLen := 0, responseIdx := 0, currentCmd := 0 }

def applyRequests (s : Pads) : Pads := { s with slots := fun k => (s.slots k).applyRequest }

/-- The access byte. -/
@[grind =] def access (s : Pads) (slot : Slot) (b : Byte) : Pads × Byte × Bool :=
  if b = 0x01 ∧ (s.slots slot).connected then ({ s with state := .waitAccess }, 0xFF, true)
  else (s, 0xFF, false)

/-- The command byte. -/
@[grind =] def command (s : Pads) (slot : Slot) (cmd : Byte) : Pads × Byte × Bool :=
  let p := s.slots slot
  let observed := { p with negotiation := p.negotiation.observeCommand cmd }
  let s := { s.setSlot slot observed with currentCmd := cmd, responseIdx := 1 }
  match observed.answer s.legacyCfg cmd with
  | some frame =>
      ({ s with state := .sendResponse, response := frame, responseLen := frame.length },
        frame.headD 0xFF, true)
  | none => (s.endTransaction, 0xFF, false)

/-- A byte behind the command. -/
@[grind =] def respond (s : Pads) (slot : Slot) (b : Byte) : Pads × Byte × Bool :=
  let s := s.setSlot slot ((s.slots slot).latch s.legacyCfg s.currentCmd s.responseIdx b)
  if s.responseIdx < s.responseLen then
    let rx := s.response.getD s.responseIdx 0xFF
    let s := { s with responseIdx := s.responseIdx + 1 }
    if s.responseIdx < s.responseLen then (s, rx, true) else (s.endTransaction, rx, false)
  else (s.endTransaction, 0xFF, false)

/-- `pad_process_byte`. -/
@[grind =] def processByte (s : Pads) (slot : Slot) (b : Byte) : Pads × Byte × Bool :=
  match s.state with
  | .idle => s.applyRequests.access slot b
  | .waitAccess => s.command slot b
  | .sendResponse => s.respond slot b

end Pads

/-- The pads as the bus sees them. -/
def padDevice : PadDevice Pads := ⟨Pads.processByte, Pads.endTransaction⟩

/-- What the host does to the pads between two bytes. -/
inductive PadHost where
  | setState (buttons : BitVec 16)
  | setStateSlot (slot : Slot) (buttons : BitVec 16)
  | setSticks (slot : Slot) (lx ly rx ry : Byte)
  | requestType (slot : Slot) (analog : Bool)

/-- `sio_request_pad_type`. -/
def PadSlot.requestType (p : PadSlot) (analog : Bool) : PadSlot :=
  let want := if p.negotiation.usesDpad then false else analog
  { p with typeReq := if p.analog = want then none else some want }

def Pads.host (s : Pads) : PadHost → Pads
  | .setState buttons => s.setSlot false { s.slots false with buttons := buttons }
  | .setStateSlot slot buttons => s.setSlot slot { s.slots slot with buttons := buttons }
  | .setSticks slot lx ly rx ry =>
      s.setSlot slot { s.slots slot with lx := lx, ly := ly, rx := rx, ry := ry }
  | .requestType slot analog => s.setSlot slot ((s.slots slot).requestType analog)

end RecompStudio.Runtime
