import TextMelody.Toml.Printer

/-!
# Settings

What the command needs to know beyond its arguments. Names are kept as they were given; whether
there is such an instrument or mode is checked where they are used.
-/

namespace TextMelody

/-- The settings of the command. -/
structure Settings where
  instrument : String := "piano"
  mode : String := "repetition"
  ticksPerBeat : UInt16 := 480
  trackName : String := "TextToMML Track"
  logLevel : String := "warn"
deriving DecidableEq, Repr

namespace Settings

/-- The settings where nothing else is given. -/
def standard : Settings := {}

/-- A number of ticks that a MIDI file can hold. -/
def ticks? (n : Int) : Option UInt16 :=
  if 1 ≤ n ∧ n ≤ 0x7FFF then some (UInt16.ofNat n.toNat) else none

/-- A key with a text behind it. -/
def assignment (key value : String) : String :=
  key ++ " = " ++ String.ofList (Toml.Printer.quoted value.toList) ++ "\n"

/-- **The settings as a TOML document.** -/
def toToml (s : Settings) : String :=
  "# mojioto configuration\n\n" ++
    "[defaults]\n" ++ assignment "instrument" s.instrument ++ assignment "mode" s.mode ++
    "\n[midi]\n" ++ "ticks_per_beat = " ++ toString s.ticksPerBeat.toNat ++ "\n" ++
    assignment "track_name" s.trackName ++
    "\n[telemetry]\n" ++ assignment "log_level" s.logLevel

theorem ticks?_bounds {n : Int} {t : UInt16} (h : ticks? n = some t) :
    1 ≤ t.toNat ∧ t.toNat ≤ 0x7FFF := by
  unfold ticks? at h
  split at h
  · rename_i hn
    rw [Option.some.injEq] at h
    have e : t.toNat = n.toNat := by
      rw [← h, UInt16.toNat_ofNat']
      exact Nat.mod_eq_of_lt (by omega)
    omega
  · cases h

end Settings

end TextMelody
