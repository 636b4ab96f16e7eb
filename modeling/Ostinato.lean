import Ostinato.Main
import Ostinato.CommandLine.Program
import Ostinato.Midi.Output
import Ostinato.Sound.Stream
import Ostinato.Playback.Scheduler
import Ostinato.Score.Compile
import Ostinato.Score.Location
import Ostinato.Playback.Wire
import Ostinato.Timer.WallClock
import Ostinato.Proofs.Playback.Course
import Ostinato.Proofs.Score.Cutting
import Ostinato.Proofs.Playback.Performance
import Ostinato.Proofs.Player.Returns
import Ostinato.Proofs.Player.Sounding
import Ostinato.Proofs.Score.LookingBack
import Ostinato.Proofs.Score.Gapless
import Ostinato.Proofs.Player.Line
import Ostinato.Proofs.Player.Channels
import Ostinato.Proofs.Score.Concatenation
import Ostinato.Proofs.Score.Tracks
import Ostinato.Proofs.Score.Faults
import Ostinato.Proofs.Playback.Mirror
import Ostinato.Proofs.Player.Agreement
import Ostinato.Proofs.Player.Attempts
import Ostinato.Proofs.Player.Singing
import Ostinato.Proofs.Midi.Receiver
import Ostinato.Proofs.Playback.Turns
import Ostinato.Proofs.Timer.Accord
import Ostinato.Proofs.Score.Normalizing
import Ostinato.Proofs.Score.Labels
import Ostinato.Proofs.Score.Partition
import Ostinato.Proofs.Score.Fillers
import Ostinato.Proofs.Score.Lines
import Ostinato.Proofs.Score.Pointing
import Ostinato.Proofs.Score.Numbers
import Ostinato.Proofs.Score.Pitches
import Ostinato.Proofs.Score.Ownership
import Ostinato.Proofs.Score.Ties
import Ostinato.Proofs.Sound.Range
import Ostinato.Proofs.Sound.Contour
import Ostinato.Proofs.Console.Lookup
import Ostinato.Proofs.Files.Reloads
import Ostinato.Proofs.Playback.WireForm
