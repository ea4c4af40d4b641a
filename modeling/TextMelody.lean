import TextMelody.Main
import TextMelody.Proofs.Melody.BadWords
import TextMelody.Proofs.Melody.LookBack
import TextMelody.Proofs.Midi.Drift
import TextMelody.Proofs.Midi.Gaps
import TextMelody.Proofs.Settings.Precedence
import TextMelody.Proofs.Token.Grammar
import TextMelody.Proofs.Transducer.LineTempo
import TextMelody.Proofs.Transducer.Lines
import TextMelody.Proofs.Transducer.ReadBack
import TextMelody.Proofs.Transducer.Timeline
import TextMelody.Proofs.Melody.Session
import TextMelody.Proofs.Midi.TempoMap
import TextMelody.Proofs.Midi.Reader
import TextMelody.Proofs.Midi.ReadBack
import TextMelody.Proofs.Toml.Quoted
import TextMelody.Proofs.Toml.Lines
import TextMelody.Proofs.Settings.ReadBack
import TextMelody.Proofs.Melody.Seconds
import TextMelody.Proofs.Midi.Standstill
import TextMelody.Proofs.Command.Delivery
import TextMelody.Proofs.Command.Obstacles
import TextMelody.Proofs.Command.Remains
import TextMelody.Proofs.Melody.TempoLog
import TextMelody.Proofs.Melody.Remarks
import TextMelody.Proofs.Midi.Setup
import TextMelody.Proofs.Text.Offsets
import TextMelody.Proofs.Melody.Sources
import TextMelody.Proofs.Transducer.LineLaws
import TextMelody.Proofs.Transducer.LineEnds
import TextMelody.Proofs.Settings.Faults
import TextMelody.Proofs.Token.LongestMatch
import TextMelody.Proofs.Command.Reports
