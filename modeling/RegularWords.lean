import RegularWords.Main
import RegularWords.Proofs.Agreement
import RegularWords.Proofs.Answers
import RegularWords.Proofs.ByteOdometer
import RegularWords.Proofs.Composition
import RegularWords.Proofs.Crossing
import RegularWords.Proofs.Cut
import RegularWords.Proofs.DepthLimit
import RegularWords.Proofs.DictionaryOrder
import RegularWords.Proofs.ErrorKinds
import RegularWords.Proofs.Exhaustion
import RegularWords.Proofs.Frontiers
import RegularWords.Proofs.GroupCounter
import RegularWords.Proofs.Language
import RegularWords.Proofs.LargerAlphabet
import RegularWords.Proofs.LargerCounts
import RegularWords.Proofs.Numerals
import RegularWords.Proofs.ParsedLeaves
import RegularWords.Proofs.Positions
import RegularWords.Proofs.Rendering
import RegularWords.Proofs.Rounds
import RegularWords.Proofs.ShortestText
import RegularWords.Proofs.Splicing
import RegularWords.Proofs.SymbolTable
import RegularWords.Proofs.Undecodable
