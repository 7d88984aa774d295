import DoorLock.Effect
import DoorLock.Lib.Run

/-!
# The keypad (`keypad.c`: `keypad_input_handler`)

A scan drives the three columns in turn and reads the four rows of each. All twelve keys share the
character accepted last, the flag of a long press and the two times kept from scan to scan.
-/

namespace DoorLock

open Transition

/-- `FIRST_REPEAT_INPT_DELAYMS` -/
def firstRepeatInptDelayms : TickType := 600

/-- `REPEAT_INPT_DELAYMS` -/
def repeatInptDelayms : TickType := 150

/-- `keypad_map`, by row and column. -/
def keypadMap (row : Fin 4) (col : Fin 3) : UInt8 :=
  match row, col with
  | 0, 0 => 0x31 | 0, 1 => 0x32 | 0, 2 => 0x33
  | 1, 0 => 0x34 | 1, 1 => 0x35 | 1, 2 => 0x36
  | 2, 0 => 0x37 | 2, 1 => 0x38 | 2, 2 => 0x39
  | 3, 0 => 0x2a | 3, 1 => 0x30 | 3, 2 => 0x23

/-- The locals of `keypad_input_handler`. -/
structure Keypad where
  longpressStartFlag : Bool
  lastInptChar : UInt8
  lastInptAccpTime : TickType
  lastInptTime : TickType

def Keypad.init : Keypad := ⟨false, 0, 0, 0⟩

/-- The condition under which a key that is down is accepted. -/
def Keypad.accepts (s : Keypad) (curTime : TickType) (ch : UInt8) : Bool :=
  ch != s.lastInptChar ||
    ((!s.longpressStartFlag ||
        decide (curTime - s.lastInptAccpTime > pdMsToTicks firstRepeatInptDelayms)) &&
      decide (curTime - s.lastInptAccpTime > pdMsToTicks repeatInptDelayms)) ||
    decide (curTime - s.lastInptTime ≥ pdMsToTicks 50)

/-- A key found down; the result tells whether its character is published. -/
def keypadKey (s : Keypad) (curTime : TickType) (ch : UInt8) : Keypad × Bool :=
  if s.accepts curTime ch then
    ({ s with
        lastInptAccpTime := curTime
        longpressStartFlag :=
          if ch = s.lastInptChar then decide (curTime - s.lastInptTime ≥ pdMsToTicks 50) else true
        lastInptChar := ch }, true)
  else (s, false)

/-- What a scan finds: the keys that are down, the tick read for each column and the tick read
after the last. -/
structure Scan where
  down : Fin 4 → Fin 3 → Bool
  curTime : Fin 3 → TickType
  endTime : TickType

/-- The keys in the order of a scan, column by column. -/
def scanOrder : List (Fin 4 × Fin 3) :=
  [(0, 0), (1, 0), (2, 0), (3, 0), (0, 1), (1, 1), (2, 1), (3, 1), (0, 2), (1, 2), (2, 2), (3, 2)]

/-- The ticks of a scan do not decrease. -/
def Scan.Ordered (scan : Scan) (last : TickType) : Prop :=
  last ≤ scan.curTime 0 ∧ scan.curTime 0 ≤ scan.curTime 1 ∧ scan.curTime 1 ≤ scan.curTime 2 ∧
    scan.curTime 2 ≤ scan.endTime

instance (scan : Scan) (last : TickType) : Decidable (scan.Ordered last) :=
  inferInstanceAs (Decidable (_ ∧ _))

/-- The keys a scan finds down, with their ticks. -/
def Scan.seen (scan : Scan) : List (TickType × UInt8) :=
  (scanOrder.filter fun k => scan.down k.1 k.2).map fun k =>
    (scan.curTime k.2, keypadMap k.1 k.2)

/-- The keys found down, one after the other, with the events published so far. -/
def keypadKeys (s : Keypad) : List (TickType × UInt8) → Keypad × List (TickType × UInt8)
  | [] => (s, [])
  | (curTime, ch) :: keys =>
    let x := keypadKey s curTime ch
    let y := keypadKeys x.1 keys
    (y.1, if x.2 then (curTime, ch) :: y.2 else y.2)

/-- A round of `keypad_input_handler`, with the characters it publishes and their ticks. -/
def keypadScan (s : Keypad) (scan : Scan) : Keypad × List (TickType × UInt8) :=
  let x := keypadKeys s scan.seen
  ({ x.1 with lastInptTime := scan.endTime }, x.2)

end DoorLock
