import Ostinato.Text.Paint

/-!
  Ostinato.Console.Help: the help that the console shows, section by section (`print_help`).
-/

namespace Ostinato.Console.Help

/-- A term, the blanks after it, and what it stands for. -/
structure Item where
  style : Style
  term : String
  gap : Nat
  meaning : String

def scoreItems : List Item := [
  ⟨.cyan, "c d e f g a b", 3, "Notes, with optional length (1, 2, 4, 8...)"⟩,
  ⟨.cyan, "r", 15, "Rest"⟩,
  ⟨.cyan, "c+ c# d-", 7, "Sharp / flat"⟩,
  ⟨.cyan, "c4. c4..", 9, "Dotted lengths (×1.5 per dot)"⟩,
  ⟨.cyan, "c4&c4", 11, "Tie into the next note"⟩,
  ⟨.cyan, "o4 t120 l8 v100", 3, "Octave, tempo, default length, volume"⟩,
  ⟨.cyan, "> <", 13, "Octave up / down"⟩,
  ⟨.cyan, ",", 15, "Start a new track"⟩,
  ⟨.cyan, "# text", 7, "Comment to end of line"⟩]

def playbackItems : List Item := [
  ⟨.cyan, "<mml>", 7, "Any other line is compiled and played"⟩,
  ⟨.cyan, "play <file>", 2, "Play a score file"⟩,
  ⟨.cyan, "watch <file>", 2, "Replay a file whenever it changes"⟩,
  ⟨.cyan, "unwatch <file>", 1, "Stop watching a file"⟩,
  ⟨.cyan, "notes <mml>", 2, "Show compiled notes without playing"⟩,
  ⟨.cyan, "stop", 9, "Stop playback"⟩,
  ⟨.cyan, "status", 7, "Show player status"⟩,
  ⟨.cyan, "volume [n]", 2, "Set volume (0-100)"⟩,
  ⟨.cyan, "output [console|synth|midi]", 2, "Choose output"⟩]

def midiItems : List Item := [
  ⟨.cyan, "midi devices", 7, "List MIDI output ports"⟩,
  ⟨.cyan, "midi connect <port>", 1, "Connect to MIDI port"⟩,
  ⟨.cyan, "midi disconnect", 4, "Disconnect MIDI"⟩,
  ⟨.cyan, "midi channel", 5, "Set channel (1-16 or 'auto')"⟩,
  ⟨.cyan, "midi status", 8, "Show MIDI status"⟩,
  ⟨.cyan, "midi panic", 9, "All notes off (panic)"⟩]

def generalItems : List Item := [
  ⟨.brightGreen, "help", 14, "Show this help"⟩,
  ⟨.brightRed, "quit", 14, "Exit the REPL"⟩]

def Item.line (p : Palette) (i : Item) : String :=
  "  " ++ p.paint [i.style] i.term ++ fill i.gap "" ++ "- " ++ i.meaning

def part (p : Palette) (title : String) (items : List Item) : List String :=
  p.paint [.green] title :: items.map (Item.line p) ++ [""]

def lines (p : Palette) : List String :=
  [p.paint [.bold] "🎵 MML Player Help", p.paint [.bold] "==================", ""]
    ++ part p "Notation:" scoreItems ++ part p "Playback:" playbackItems ++ part p "MIDI Commands:" midiItems
    ++ generalItems.map (Item.line p)

end Ostinato.Console.Help
