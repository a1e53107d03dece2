import DeviceStats.Unicode.CharSet

/-!
# Unicode/CaseFolding — characters that differ only in case, version 16

Simple case folding sorts the characters into classes; the characters of one class are read as the
same when case does not count.  Most classes are pairs, and most pairs lie in runs that share one
distance, which is how they are written here.
-/

namespace DeviceStats.Unicode.CaseFolding

/-- Characters, each of which pairs with the one at a fixed distance after it. -/
structure Run where
  starts : CharSet
  distance : Nat

/-- Reads a run: the written set of first members, a colon and the distance. -/
def Run.parse (text : String) : Run :=
  let starts := text.toList.takeWhile (· != ':')
  let distance := (text.toList.dropWhile (· != ':')).drop 1
  { starts := .parse (String.ofList starts)
    distance := distance.foldl (fun n c => n * 16 + (CharSet.hexDigit? c).getD 0) 0 }

def runs : List Run :=
  let words := "
  41-4A:20 4C-5A/2:20 4D-51/2:20 55-59/2:20 C0-DE/2:20 C1:20 C3:20 C7-D5/2:20 D9-DD/2:20 DF:1DBF
  FF:79 100-12E/2:1 132-136/2:1 139-147/2:1 14A-176/2:1 179-17D/2:1 180:C3 181:D2 182:1 184:1
  186:CE 187:1 189-18A:CD 18B:1 18E:4F 18F:CA 190:CB 191:1 193:CD 194:CF 195:61 196:D3 197:D1
  198:1 19A:A3 19B:A641 19C:D3 19D:D5 19E:82 19F:D6 1A0-1A4/2:1 1A6:DA 1A7:1 1A9:DA 1AC:1 1AE:DA
  1AF:1 1B1-1B2:D9 1B3:1 1B5:1 1B7:DB 1B8:1 1BC:1 1BF:38 1CD-1DB/2:1 1DE-1EE/2:1 1F4:1
  1F8-21E/2:1 222-232/2:1 23A:2A2B 23B:1 23E:2A28 23F-240:2A3F 241:1 244:45 245:47 246-24E/2:1
  250:2A1F 251:2A1C 252:2A1E 25C:A54F 261:A54B 264:A567 265:A528 266:A544 26A:A544 26B:29F7
  26C:A541 271:29FD 27D:29E7 282:A543 287:A52A 29D:A515 29E:A512 370:1 372:1 376:1 37B-37D:82
  37F:74 386:26 388-38A:25 38C:40 38E-38F:3F 390:1C43 391:20 393-394:20 396-397:20 39B-39F/2:20
  39E:20 3A4-3A5:20 3A7-3A8:20 3AA-3AB:20 3B0:1C33 3CF:8 3D8-3EE/2:1 3F2:7 3F7:1 3FA:1 400-40F:50
  410-411:20 413-41F/2:20 416-41C/2:20 420:20 423-429:20 42B-42F:20 460:1 464-480/2:1 48A-4BE/2:1
  4C0:F 4C1-4CD/2:1 4D0-52E/2:1 531-556:30 10A0-10C5:1C60 10C7:1C60 10CD:1C60 10D0-10FA:BC0
  10FD-10FF:BC0 13A0-13EF:97D0 13F0-13F5:8 1C89:1 1D79:8A04 1D7D:EE6 1D8E:8A38 1E00-1E5E/2:1
  1E62-1E94/2:1 1EA0-1EFE/2:1 1F00-1F07:8 1F10-1F15:8 1F20-1F27:8 1F30-1F37:8 1F40-1F45:8
  1F51-1F57/2:8 1F60-1F67:8 1F70-1F71:4A 1F72-1F75:56 1F76-1F77:64 1F78-1F79:80 1F7A-1F7B:70
  1F7C-1F7D:7E 1F80-1F87:8 1F90-1F97:8 1FA0-1FA7:8 1FB0-1FB1:8 1FB3:9 1FC3:9 1FD0-1FD1:8
  1FE0-1FE1:8 1FE5:7 1FF3:9 2132:1C 2160-216F:10 2183:1 24B6-24CF:1A 2C00-2C2F:30 2C60:1
  2C67-2C6B/2:1 2C72:1 2C75:1 2C80-2CE2/2:1 2CEB:1 2CED:1 2CF2:1 A640-A648/2:1 A64C-A66C/2:1
  A680-A69A/2:1 A722-A72E/2:1 A732-A76E/2:1 A779:1 A77B:1 A77E-A786/2:1 A78B:1 A790:1 A792:1
  A794:30 A796-A7A8/2:1 A7B3:3A0 A7B4-A7C2/2:1 A7C7:1 A7C9:1 A7CC:1 A7D0:1 A7D6-A7DA/2:1 A7F5:1
  FB05:1 FF21-FF3A:20 10400-10427:28 104B0-104D3:28 10570-10594/2:27 10571-10579/2:27
  1057D-10589/2:27 1058D-10591/2:27 10595:27 10C80-10CB2:40 10D50-10D65:20 118A0-118BF:20
  16E40-16E5F:20 1E900-1E921:22".toList.splitBy fun a b => !a.isWhitespace && !b.isWhitespace
  words.filterMap fun w => if w.all Char.isWhitespace then none else some (.parse (String.ofList w))

/-- The classes of more than two characters. -/
def larger : List CharSet := [
  .parse "4B 6B 212A", .parse "53 73 17F", .parse "B5 39C 3BC", .parse "C5 E5 212B",
  .parse "1C4 1C5 1C6", .parse "1C7 1C8 1C9", .parse "1CA 1CB 1CC", .parse "1F1 1F2 1F3",
  .parse "345 399 3B9 1FBE", .parse "392 3B2 3D0", .parse "395 3B5 3F5",
  .parse "398 3B8 3D1 3F4", .parse "39A 3BA 3F0", .parse "3A0 3C0 3D6", .parse "3A1 3C1 3F1",
  .parse "3A3 3C2 3C3", .parse "3A6 3C6 3D5", .parse "3A9 3C9 2126", .parse "412 432 1C80",
  .parse "414 434 1C81", .parse "41E 43E 1C82", .parse "421 441 1C83",
  .parse "422 442 1C84 1C85", .parse "42A 44A 1C86", .parse "462 463 1C87",
  .parse "1C88 A64A A64B", .parse "1E60 1E61 1E9B"]

/-- The partners of a set's members: later ones of first members, earlier ones of the rest. -/
def Run.partners (run : Run) (s : CharSet) : List (Nat × Nat) :=
  let later := (run.starts.inter s).ranges.map fun r => (r.1 + run.distance, r.2 + run.distance)
  let moved := s.ranges.filterMap fun r =>
    if r.2 < run.distance then none else some (r.1 - run.distance, r.2 - run.distance)
  later ++ (run.starts.inter ⟨moved⟩).ranges

/-- All characters that differ from a member in case only. -/
def fold (s : CharSet) : CharSet :=
  .ofRanges (s.ranges ++ runs.flatMap (·.partners s) ++
    larger.flatMap fun c => if (c.inter s).isEmpty then [] else c.ranges)

/-- The same with case known for ASCII letters only. -/
def asciiFold (s : CharSet) : CharSet :=
  let upper := (s.inter (.parse "41-5A")).ranges.map fun r => (r.1 + 32, r.2 + 32)
  let lower := (s.inter (.parse "61-7A")).ranges.map fun r => (r.1 - 32, r.2 - 32)
  .ofRanges (s.ranges ++ upper ++ lower)

end DeviceStats.Unicode.CaseFolding
